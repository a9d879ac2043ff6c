import MyCloud.Panel.Samba
import MyCloud.Panel.Stage3

/-!
# smb.conf as a list of sections

Both writers act on the `sections` of the text:

* `sections_add`: `share_add_block` appends one section, whatever the text ends with.
* `sections_awkDel`: the filter of `share_del_block` leaves out the sections with the header `[n]`.

Both hold for every text. `ExactHeaders` (every header line is `[name]`) makes the `grep` of the
verbs the test for a section of that name (`hasHeader_iff`), and is kept by both writers.
-/

set_option autoImplicit false

namespace Panel

open Shell

/-! ## Names -/

theorem nameRe_chars {n : Bytes} (hn : nameRe n = true) {c : UInt8} (hc : c ∈ n) :
    isLower c = true ∨ isDigit c = true := by
  cases n with
  | nil => cases hc
  | cons d ds =>
    simp only [nameRe, Bool.and_eq_true, List.all_eq_true, Bool.or_eq_true] at hn
    rcases List.mem_cons.1 hc with rfl | hc
    · exact .inl hn.1.1
    · exact hn.1.2 c hc

theorem nameRe_notMem {n : Bytes} (hn : nameRe n = true) {c : UInt8}
    (hc : isLower c = false ∧ isDigit c = false) : c ∉ n := fun h => by
  rcases nameRe_chars hn h with h | h
  · rw [hc.1] at h; cases h
  · rw [hc.2] at h; cases h

theorem nameRe_ne_nil {n : Bytes} (hn : nameRe n = true) : n ≠ [] := by
  rintro rfl; cases hn

theorem nameRe_nl {n : Bytes} (hn : nameRe n = true) : nl ∉ n := nameRe_notMem hn (by decide)

theorem nameRe_close {n : Bytes} (hn : nameRe n = true) : ']'.toUInt8 ∉ n :=
  nameRe_notMem hn (by decide)

/-! ## Headers -/

theorem header_eq (n : Bytes) : header n = '['.toUInt8 :: (n ++ [']'.toUInt8]) := rfl

@[simp] theorem isHeader_header (n : Bytes) : isHeader (header n) = true := rfl

@[simp] theorem isHeader_nil : isHeader [] = false := rfl

theorem nl_notMem_header {n : Bytes} (hn : nl ∉ n) : nl ∉ header n := by
  simp only [header_eq, List.mem_cons, List.mem_append, List.not_mem_nil, or_false, not_or]
  exact ⟨by decide, hn, by decide⟩

@[simp] theorem header_inj {m n : Bytes} : header m = header n ↔ m = n := by
  simp [header_eq]

/-- A header `[m]` with the prefix `[n]` is `[n]`, when no name contains a bracket. -/
theorem header_prefix_iff {m n : Bytes} (hm : ']'.toUInt8 ∉ m) (hn : ']'.toUInt8 ∉ n) :
    header n <+: header m ↔ n = m := by
  rw [header_eq, header_eq, List.cons_prefix_cons, append_sep_prefix_iff hn hm]
  simp

theorem prefix_isHeader {n : Bytes} {l : Line} (h : header n <+: l) : isHeader l = true := by
  obtain ⟨t, rfl⟩ := h
  rfl

theorem opensSection_of_isHeader {l : Line} (h : isHeader l = true) : opensSection l = true := by
  cases l with
  | nil => cases h
  | cons c l =>
    obtain rfl : c = '['.toUInt8 := by simpa [isHeader] using h
    rfl

/-- A line with the prefix `[n]` is a header of a section named `n`. -/
theorem sectionName_of_prefix {n : Bytes} (hc : ']'.toUInt8 ∉ n) {l : Line} (h : header n <+: l) :
    opensSection l = true ∧ sectionName l = some n := by
  obtain ⟨r, rfl⟩ := h
  refine ⟨opensSection_of_isHeader rfl, ?_⟩
  have hd : (header n ++ r).dropWhile isBlank = '['.toUInt8 :: (n ++ ']'.toUInt8 :: r) := by
    simp [header_eq]
    decide
  have ht : (n ++ ']'.toUInt8 :: r).takeWhile (· ≠ ']'.toUInt8) = n := by
    have hne : ∀ c ∈ n, decide (c ≠ ']'.toUInt8) = true :=
      fun c hm => decide_eq_true fun he : c = ']'.toUInt8 => hc (he ▸ hm)
    rw [List.takeWhile_append_of_pos hne]
    simp
  simp only [sectionName, hd, List.tail_cons, ht]
  simp

/-! ## The lines of a new section -/

/-- A line of a section: on a line of its own, no header, not blank. -/
def BodyLine (l : Line) : Prop := nl ∉ l ∧ isHeader l = false ∧ l ≠ []

theorem bodyLine_append {s : String} {n t : Bytes} (hs : BodyLine (bytes s)) (hn : nl ∉ n)
    (ht : nl ∉ t) : BodyLine (bytes s ++ n ++ t) := by
  obtain ⟨h1, h2, h3⟩ := hs
  refine ⟨by simp [h1, hn, ht], ?_, by simp [h3]⟩
  obtain ⟨c, cs, hc⟩ := List.exists_cons_of_ne_nil h3
  rw [hc] at h2 ⊢
  exact h2

theorem bodyLine_append' {s : String} {n : Bytes} (hs : BodyLine (bytes s)) (hn : nl ∉ n) :
    BodyLine (bytes s ++ n) := by
  simpa using bodyLine_append hs hn (t := []) (by simp)

instance (l : Line) : Decidable (BodyLine l) := inferInstanceAs (Decidable (_ ∧ _ ∧ _))

theorem recycleLines_body : ∀ l ∈ recycleLines, BodyLine l := by decide +kernel

theorem typeLines_body {n owner : Bytes} {typ : ShareType} (hn : nl ∉ n)
    (ho : typ = .priv → nl ∉ owner) : ∀ l ∈ typeLines n typ owner, BodyLine l := by
  intro l hl
  cases typ with
  | priv =>
    simp only [typeLines, List.mem_cons, List.not_mem_nil, or_false] at hl
    rcases hl with rfl | rfl | rfl | rfl | rfl | rfl | rfl | rfl | rfl
    · exact bodyLine_append (by decide) hn (by decide)
    · exact bodyLine_append' (by decide) hn
    iterate 3 decide
    · exact bodyLine_append (by decide) (ho rfl) (by decide)
    all_goals decide
  | family =>
    simp only [typeLines, List.mem_cons, List.not_mem_nil, or_false] at hl
    rcases hl with rfl | rfl | rfl | rfl | rfl | rfl | rfl | rfl | rfl
    · exact bodyLine_append (by decide) hn (by decide)
    · exact bodyLine_append' (by decide) hn
    all_goals decide
  | guest =>
    simp only [typeLines, List.mem_cons, List.not_mem_nil, or_false] at hl
    rcases hl with rfl | rfl | rfl | rfl | rfl | rfl | rfl | rfl
    · exact bodyLine_append (by decide) hn (by decide)
    · exact bodyLine_append' (by decide) hn
    all_goals decide

theorem shareLines_body {n owner : Bytes} {typ : ShareType} (hn : nl ∉ n)
    (ho : typ = .priv → nl ∉ owner) : ∀ l ∈ shareLines n typ owner, BodyLine l := by
  intro l hl
  rcases List.mem_append.1 hl with hl | hl
  · exact typeLines_body hn ho l hl
  · exact recycleLines_body l hl

/-! ## Sections -/

theorem mem_sections {t : Bytes} {s : Line × List Line} (hs : s ∈ (segments isHeader (lines t)).2) :
    (s.1, trim s.2) ∈ sections t := List.mem_map_of_mem hs

@[simp] theorem trim_snoc_nil (ls : List Line) : trim (ls ++ [[]]) = trim ls := by
  simp [trim]

theorem trim_of_body {ls : List Line} (h : ∀ l ∈ ls, BodyLine l) : trim ls = ls := by
  rcases List.eq_nil_or_concat ls with rfl | ⟨ms, l, rfl⟩
  · rfl
  · have := (h l (by simp)).2.2
    simp [trim, this]

/-- Closing the last line, or a blank line after it, changes no section. -/
theorem sections_close (t : Bytes) : sections (t ++ [nl]) = sections t := by
  unfold sections lines
  rw [records_close]
  split
  · rw [segments_snoc_item _ isHeader_nil]
    cases h : (segments isHeader (records nl t)).2.getLast? with
    | none => rw [List.getLast?_eq_none_iff] at h; simp [h]
    | some s =>
      obtain ⟨ss, hs⟩ := List.getLast?_eq_some_iff.1 h
      simp [hs]
  · simp

theorem lines_append_block (t : Bytes) {ls : List Line} (h : ∀ l ∈ ls, nl ∉ l) :
    lines (t ++ unlines ([] :: ls)) = lines (t ++ [nl]) ++ ls := by
  have : unlines ([] :: ls) = nl :: unlines ls := rfl
  rw [this]
  unfold lines
  rw [records_append_sep]
  unfold unlines
  rw [records_terminate h]

/-- A blank line, a header and the lines of a section, appended to a text. -/
theorem sections_block (t : Bytes) {n : Bytes} {ls : List Line} (hn : nl ∉ n)
    (hb : ∀ l ∈ ls, BodyLine l) :
    sections (t ++ unlines ([] :: header n :: ls)) = sections t ++ [(header n, ls)] := by
  have hl : ∀ l ∈ header n :: ls, nl ∉ l := by
    intro l hl
    rcases List.mem_cons.1 hl with rfl | hl
    · exact nl_notMem_header hn
    · exact (hb l hl).1
  rw [← sections_close t]
  unfold sections
  rw [lines_append_block t hl, segments_append _ (isHeader_header n),
    segments_header (isHeader_header n), segments_of_no_header fun l hl => (hb l hl).2.1]
  simp [trim_of_body hb]

/-- **`share_add_block` appends one section**, with or without a final newline in the text. -/
theorem sections_add (t : Bytes) {n owner : Bytes} {typ : ShareType} (hn : nl ∉ n)
    (ho : typ = .priv → nl ∉ owner) :
    sections (t ++ shareBlock n typ owner) =
      sections t ++ [(header n, shareLines n typ owner)] :=
  sections_block t hn (shareLines_body hn ho)

theorem lines_awkDel (n t : Bytes) :
    lines (awkDel n t) = skipFrom isHeader (header n) false (lines t) :=
  records_terminate fun _ hl => sep_notMem_records t _ ((skipFrom_sublist _ _).subset hl)

/-- **The filter of `share_del_block` leaves out the sections with the header `[n]`.** -/
theorem sections_awkDel (n t : Bytes) :
    sections (awkDel n t) = (sections t).filter fun s => s.1 ≠ header n := by
  unfold sections
  rw [lines_awkDel, segments_skip, List.filter_map]
  rfl

/-! ## Exact headers -/

/-- Every header line is `[name]`. -/
def ExactHeaders (t : Bytes) : Prop :=
  ∀ l ∈ lines t, isHeader l = true → ∃ n, ']'.toUInt8 ∉ n ∧ l = header n

theorem exactHeaders_iff {t : Bytes} :
    ExactHeaders t ↔ ∀ s ∈ sections t, ∃ n, ']'.toUInt8 ∉ n ∧ s.1 = header n := by
  constructor
  · intro h s hs
    obtain ⟨r, hr, rfl⟩ := List.mem_map.1 hs
    exact h r.1 (header_mem hr) (hd_of_mem_segments hr)
  · intro h l hl hh
    obtain ⟨s, hs, rfl⟩ := mem_segments_of_hd hl hh
    exact h (s.1, trim s.2) (mem_sections hs)

theorem exactHeaders_add {t n owner : Bytes} {typ : ShareType} (ht : ExactHeaders t)
    (hn : nameRe n = true) (ho : typ = .priv → nl ∉ owner) :
    ExactHeaders (t ++ shareBlock n typ owner) := by
  rw [exactHeaders_iff, sections_add t (nameRe_nl hn) ho]
  intro s hs
  rcases List.mem_append.1 hs with hs | hs
  · exact exactHeaders_iff.1 ht s hs
  · rw [List.mem_singleton] at hs
    exact ⟨n, nameRe_close hn, by rw [hs]⟩

theorem exactHeaders_awkDel {t : Bytes} (ht : ExactHeaders t) (n : Bytes) :
    ExactHeaders (awkDel n t) := by
  rw [exactHeaders_iff, sections_awkDel]
  exact fun s hs => exactHeaders_iff.1 ht s (List.mem_of_mem_filter hs)

/-- **The `grep` of the verbs finds the sections named `n`.** -/
theorem hasHeader_iff {t n : Bytes} (ht : ExactHeaders t) (hn : nameRe n = true) :
    hasHeader n t = true ↔ ∃ s ∈ sections t, s.1 = header n := by
  simp only [hasHeader, List.any_eq_true, decide_eq_true_eq]
  constructor
  · rintro ⟨l, hl, hp⟩
    obtain ⟨m, hm, rfl⟩ := ht l hl (prefix_isHeader hp)
    obtain ⟨s, hs, hs1⟩ := mem_segments_of_hd hl (isHeader_header m)
    exact ⟨_, mem_sections hs,
      by rw [hs1, (header_prefix_iff hm (nameRe_close hn)).1 hp]⟩
  · rintro ⟨s, hs, hs1⟩
    obtain ⟨r, hr, rfl⟩ := List.mem_map.1 hs
    exact ⟨r.1, header_mem hr, by rw [show r.1 = header n from hs1]⟩

/-- What the `grep` misses is in no section. -/
theorem notMem_of_not_hasHeader {t n : Bytes} (h : hasHeader n t = false) :
    ∀ s ∈ sections t, s.1 ≠ header n := by
  rintro s hs hs1
  obtain ⟨r, hr, rfl⟩ := List.mem_map.1 hs
  have : hasHeader n t = true := by
    simp only [hasHeader, List.any_eq_true, decide_eq_true_eq]
    exact ⟨r.1, header_mem hr, by rw [show r.1 = header n from hs1]⟩
  rw [h] at this
  cases this

/-! ## Names once -/

/-- The headers of the sections. -/
def headers (t : Bytes) : List Line := (sections t).map (·.1)

/-- No two sections have one name. -/
def Distinct (t : Bytes) : Prop := (headers t).Nodup

instance (t : Bytes) : Decidable (Distinct t) := inferInstanceAs (Decidable (List.Nodup _))

theorem distinct_add {t n owner : Bytes} {typ : ShareType} (ht : Distinct t) (hn : nameRe n = true)
    (ho : typ = .priv → nl ∉ owner) (hg : hasHeader n t = false) :
    Distinct (t ++ shareBlock n typ owner) := by
  unfold Distinct headers
  rw [sections_add t (nameRe_nl hn) ho, List.map_append, List.nodup_append]
  refine ⟨ht, by simp, fun a ha b hb hab => ?_⟩
  obtain ⟨s, hs, rfl⟩ := List.mem_map.1 ha
  obtain rfl : b = header n := by simpa using hb
  exact notMem_of_not_hasHeader hg s hs hab

theorem distinct_awkDel {t : Bytes} (ht : Distinct t) (n : Bytes) : Distinct (awkDel n t) := by
  unfold Distinct headers
  rw [sections_awkDel]
  exact List.Nodup.sublist (List.filter_sublist.map _) ht

/-! ## Stage 3 -/

theorem sections_stage3 : sections stage3Conf = [(header (bytes "global"), globalLines),
    (header (bytes "public"), publicLines), (header alpha, alphaLines)] := by decide +kernel

theorem exactHeaders_stage3 : ExactHeaders stage3Conf := by
  rw [exactHeaders_iff, sections_stage3]
  intro s hs
  simp only [List.mem_cons, List.not_mem_nil, or_false] at hs
  rcases hs with rfl | rfl | rfl
  · exact ⟨bytes "global", by decide, rfl⟩
  · exact ⟨bytes "public", by decide, rfl⟩
  · exact ⟨alpha, by decide, rfl⟩

end Panel
