import MyCloud.Tools.AlignmentScan

/-!
# What `alignment-scan.sh` reports

* `loadWords_eq`: the words the inner loop runs over are the last fields of the LOAD lines.
* `allowed_eq`: the helper reports whether the name is on the list, and leaves in `a` the name it
  found there, or the last one of the list.
* `rows_eq`, `tallied`: one row (`rowOf`) for each ELF file with a segment below the limit, each
  counted under its kind. In the row of a shared object, `allowed` has replaced the alignment.
* `alignment_scan_iff`: verdict and rows are right exactly when no ELF file that is a shared object
  is below the limit, and no alignment is so large that the shell takes it for a negative number.
-/

set_option autoImplicit false

namespace Tools

open Shell Panel

/-! ## ELF files -/

def elfMagic : Bytes := [0x7f, 0x45, 0x4c, 0x46]

def hexPair (c : UInt8) : Bytes := [lowerHexDigit (c.toNat / 16), lowerHexDigit (c.toNat % 16)]

theorem hexValue_lowerHexDigit : ∀ n < 16, hexValue (lowerHexDigit n) = some n := by decide

theorem lowerHexDigit_plain : ∀ n < 16, lowerHexDigit n ≠ space ∧ lowerHexDigit n ≠ nl := by decide

theorem hexPair_inj {c d : UInt8} (h : hexPair c = hexPair d) : c = d := by
  have hc := c.toNat_lt
  have hd := d.toNat_lt
  simp only [hexPair, List.cons.injEq, and_true] at h
  have h1 := congrArg hexValue h.1
  have h2 := congrArg hexValue h.2
  rw [hexValue_lowerHexDigit _ (by omega), hexValue_lowerHexDigit _ (by omega),
    Option.some.injEq] at h1 h2
  apply UInt8.toNat_inj.1
  omega

theorem od_digits (t : Bytes) :
    (od t).filter (fun c => c ≠ space ∧ c ≠ nl) = t.flatMap hexPair := by
  have hn : [nl].filter (fun c => c ≠ space ∧ c ≠ nl) = [] := by decide
  rw [od, List.filter_append, hn, List.append_nil]
  induction t with
  | nil => rfl
  | cons c t ih =>
    have h1 := lowerHexDigit_plain (c.toNat / 16) (by have := c.toNat_lt; omega)
    have h2 := lowerHexDigit_plain (c.toNat % 16) (by omega)
    simp only [List.flatMap_cons, List.filter_append, ih]
    simp [hexPair, h1, h2]

theorem hexPairs_inj : ∀ {s t : Bytes}, s.flatMap hexPair = t.flatMap hexPair → s = t
  | [], [], _ => rfl
  | [], d :: t, h => by simp [hexPair] at h
  | c :: s, [], h => by simp [hexPair] at h
  | c :: s, d :: t, h => by
    rw [List.flatMap_cons, List.flatMap_cons] at h
    obtain ⟨hc, ht⟩ := List.append_inj h rfl
    rw [hexPair_inj hc, hexPairs_inj ht]

/-- **The test of the first four bytes is the test for the ELF magic.** -/
theorem isElf_iff (f : File) : isElf f = true ↔ elfMagic <+: f.content := by
  have hm : bytes "7f454c46" = elfMagic.flatMap hexPair := by decide
  simp only [isElf, od_digits, decide_eq_true_eq, hm]
  constructor
  · intro h
    rw [← hexPairs_inj h]
    exact List.take_prefix 4 _
  · rintro ⟨t, ht⟩
    rw [← ht]
    rfl

/-! ## Words of `readelf` -/

/-- One line for each LOAD segment, in order, with the alignment as its last field. -/
def LoadLines (out : Bytes) (loads : List (BitVec 64)) : Prop :=
  ((lines out).filterMap loadField).map constant = loads.map fun a => some a.toNat

instance (out : Bytes) (loads : List (BitVec 64)) : Decidable (LoadLines out loads) :=
  inferInstanceAs (Decidable (_ = _))

/-- A word that the shell does not split or change. -/
def Plain (w : Bytes) : Prop := w ≠ [] ∧ ∀ c ∈ w, c ≠ 0 ∧ c ≠ nl ∧ c ≠ space ∧ c ≠ tab

theorem hexValue_plain {c : UInt8} (h : hexValue c ≠ none) :
    c ≠ 0 ∧ c ≠ nl ∧ c ≠ space ∧ c ≠ tab := by
  refine ⟨?_, ?_, ?_, ?_⟩ <;>
  · rintro rfl
    exact h (by decide)

theorem inBase_plain {b n k : ℕ} {s : Bytes} (h : inBase b s n = some k) :
    ∀ c ∈ s, hexValue c ≠ none := by
  induction s generalizing n with
  | nil => simp
  | cons c s ih =>
    simp only [inBase] at h
    obtain ⟨d, hd, h⟩ := Option.bind_eq_some_iff.1 h
    split at h
    · intro x hx
      rcases List.mem_cons.1 hx with rfl | hx
      · simp [hd]
      · exact ih h x hx
    · simp at h

theorem constant_plain {s : Bytes} {n : ℕ} (h : constant s = some n) : Plain s := by
  simp only [constant] at h
  split at h
  · simp at h
  · rename_i hne
    refine ⟨hne, ?_⟩
    split at h
    · rename_i hx
      split at h
      · simp at h
      · have hd := inBase_plain h
        -- the two characters before the digits
        have hp : ∀ p ∈ [bytes "0x", bytes "0X"],
            ∀ c ∈ p, c ≠ 0 ∧ c ≠ nl ∧ c ≠ space ∧ c ≠ tab := by decide +kernel
        obtain ⟨p, hp', t, rfl⟩ : ∃ p ∈ [bytes "0x", bytes "0X"], p <+: s := by simpa using hx
        have hl : p.length = 2 := by
          have : ∀ p ∈ [bytes "0x", bytes "0X"], p.length = 2 := by decide
          exact this p hp'
        intro c hc
        rcases List.mem_append.1 hc with hc | hc
        · exact hp p hp' c hc
        · exact hexValue_plain (hd c (by simpa [← hl] using hc))
    · split at h <;> exact fun c hc => hexValue_plain (inBase_plain h c hc)

theorem Plain.notMem {w : Bytes} (h : Plain w) : 0 ∉ w ∧ nl ∉ w ∧ space ∉ w ∧ tab ∉ w := by
  refine ⟨?_, ?_, ?_, ?_⟩ <;> intro hc <;> obtain ⟨h1, h2, h3, h4⟩ := h.2 _ hc
  · exact h1 rfl
  · exact h2 rfl
  · exact h3 rfl
  · exact h4 rfl

/-- Replacing a byte that does not occur. -/
theorem map_absent {w : Bytes} {c : UInt8} (d : UInt8) (h : c ∉ w) :
    w.map (fun x => if x = c then d else x) = w := by
  have hw : ∀ x ∈ w, (fun x => if x = c then d else x) x = id x := by
    intro x hx
    show (if x = c then d else x) = x
    rw [if_neg fun he : x = c => h (he ▸ hx)]
  rw [List.map_congr_left hw, List.map_id]

theorem map_unlines {ws : List Bytes} (h : ∀ w ∈ ws, nl ∉ w) :
    (unlines ws).map (fun c => if c = nl then space else c) = terminate space ws := by
  induction ws with
  | nil => rfl
  | cons w ws ih =>
    have hw := map_absent space (h w List.mem_cons_self)
    have ih := ih fun x hx => h x (List.mem_cons_of_mem _ hx)
    unfold unlines at ih ⊢
    rw [terminate_cons, List.map_append, hw, List.map_cons, if_pos rfl, ih, terminate_cons]

/-- **Plain words, one on a line, come back from a command substitution.** -/
theorem words_unlines {ws : List Bytes} (h : ∀ w ∈ ws, Plain w) :
    fieldsOf ((subst (unlines ws)).map fun c => if c = nl then space else c) = ws := by
  rcases List.eq_nil_or_concat ws with rfl | ⟨ws, w, rfl⟩
  · decide
  rw [List.concat_eq_append] at h ⊢
  have hw := (h w (by simp)).notMem
  have hws : ∀ x ∈ ws, 0 ∉ x ∧ nl ∉ x ∧ space ∉ x ∧ tab ∉ x :=
    fun x hx => (h x (by simp [hx])).notMem
  have hne : w ≠ [] := (h w (by simp)).1
  have ht : tab ∉ terminate space ws ++ w := by
    rw [List.mem_append, not_or]
    exact ⟨notMem_terminate (by decide) fun x hx => (hws x hx).2.2.2, hw.2.2.2⟩
  have hs : subst (unlines (ws ++ [w])) = unlines ws ++ w :=
    subst_terminate (fun x hx => (hws x hx).1) hw.1 hw.2.1 hne
  rw [hs, List.map_append, map_unlines fun x hx => (hws x hx).2.1, map_absent _ hw.2.1, fieldsOf,
    map_absent _ ht, records_terminate_append ws fun x hx => (hws x hx).2.2.1,
    records_single hw.2.2.1 hne]
  exact List.filter_eq_self.2 fun x hx => decide_eq_true (h x hx).1

theorem loadWords_eq {out : Bytes} {loads : List (BitVec 64)} (h : LoadLines out loads) :
    (loadWords out).map constant = loads.map fun a => some a.toNat := by
  have hp : ∀ w ∈ (lines out).filterMap loadField, Plain w := by
    intro w hw
    have hc : constant w ∈ loads.map fun a => some a.toNat := h ▸ List.mem_map_of_mem hw
    obtain ⟨a, -, ha⟩ := List.mem_map.1 hc
    exact constant_plain ha.symm
  rw [loadWords, words_unlines hp]
  exact h

/-! ## The helper and its variables -/

/-- The name that `allowed` looks for. -/
def sought (p : Bytes) : Bytes := subst (basename p ++ [nl])

theorem allowedFrom_eq (ws : List Bytes) (v : Vars) :
    allowedFrom ws v = if v.b ∈ ws then (true, { v with a := v.b })
      else (false, { v with a := ws.getLast?.getD v.a }) := by
  induction ws generalizing v with
  | nil => rfl
  | cons w ws ih =>
    simp only [allowedFrom, List.mem_cons]
    by_cases hb : v.b = w
    · simp [hb]
    · simp only [hb, if_false, ih, false_or, List.getLast?_cons, Option.getD_some]

/-- **`allowed` leaves in `a` a name of the list.** -/
theorem allowed_eq (p : Bytes) (v : Vars) :
    allowed p v =
      if sought p ∈ allow then (true, { v with b := sought p, a := sought p })
      else (false, { v with b := sought p, a := bytes "libsystemd.so.0.17.0" }) := by
  rw [allowed, allowedFrom_eq]
  rfl

/-! ## Rows -/

/-- The row for a path whose first alignment below the limit is printed as `w`. -/
def rowAt (p w : Bytes) : Row :=
  if is_so p = false then ⟨.note, w, p⟩
  else if sought p ∈ allow then ⟨.okKnown, sought p, p⟩
  else ⟨.misaligned, bytes "libsystemd.so.0.17.0", p⟩

def rowOf (p : Bytes) (ws : List Bytes) : Option Row := (ws.find? below).map (rowAt p)

theorem segments_rows (ws : List Bytes) (v : Vars) :
    (segments ws v).rows = v.rows ++ (rowOf v.f ws).toList := by
  induction ws generalizing v with
  | nil => simp [segments, rowOf]
  | cons w ws ih =>
    simp only [segments]
    by_cases hb : below w = false
    · rw [if_pos hb, ih]
      simp [rowOf, hb]
    · rw [if_neg hb, rowOf, List.find?_cons_of_pos (by simpa using hb), Option.map_some, rowAt]
      split
      · rfl
      · rw [allowed_eq]
        by_cases hs : sought v.f ∈ allow
        · simp only [if_pos hs]
          rfl
        · simp only [if_neg hs]
          rfl

/-- Each counter counts the rows of its kind. -/
structure Tallied (v : Vars) : Prop where
  bad : v.bad = v.rows.countP (·.kind = .misaligned)
  known : v.known = v.rows.countP (·.kind = .okKnown)
  notes : v.notes = v.rows.countP (·.kind = .note)

theorem Tallied.segments (ws : List Bytes) {v : Vars} (h : Tallied v) : Tallied (segments ws v) := by
  induction ws generalizing v with
  | nil => exact h
  | cons w ws ih =>
    obtain ⟨hb, hk, hn⟩ := h
    simp only [Tools.segments]
    split
    · exact ih ⟨hb, hk, hn⟩
    · split
      · exact ⟨by simp [Vars.print, hb], by simp [Vars.print, hk], by simp [Vars.print, hn]⟩
      · rw [allowed_eq]
        by_cases hs : sought v.f ∈ allow
        · simp only [if_pos hs]
          exact ⟨by simp [Vars.print, hb], by simp [Vars.print, hk], by simp [Vars.print, hn]⟩
        · simp only [if_neg hs]
          exact ⟨by simp [Vars.print, hb], by simp [Vars.print, hk], by simp [Vars.print, hn]⟩

section
variable (readelf : File → Bytes) (tree : Bytes → List File)

/-- The ELF files that the scan finds, in its order. -/
def scanned (roots : List Bytes) : List File :=
  (roots.flatMap (find tree)).filter fun f => elfMagic <+: f.content

theorem scanFiles_rows (xs : List File) (v : Vars) :
    (scanFiles readelf xs v).rows = v.rows ++
      (xs.filter fun f => elfMagic <+: f.content).filterMap
        fun f => rowOf f.path (loadWords (readelf f)) := by
  induction xs generalizing v with
  | nil => simp [scanFiles]
  | cons x xs ih =>
    simp only [scanFiles]
    by_cases hx : elfMagic <+: x.content
    · rw [if_neg (by simp [(isElf_iff x).2 hx]), ih, segments_rows, List.filter_cons,
        if_pos (decide_eq_true hx), List.filterMap_cons]
      cases hr : rowOf x.path (loadWords (readelf x)) <;> simp
    · rw [if_pos (by simpa using (isElf_iff x).not.2 hx), ih,
        List.filter_cons_of_neg (by simpa using hx)]

theorem scanRoots_rows (roots : List Bytes) (v : Vars) :
    (scanRoots readelf tree roots v).rows = v.rows ++
      (scanned tree roots).filterMap fun f => rowOf f.path (loadWords (readelf f)) := by
  induction roots generalizing v with
  | nil => simp [scanRoots, scanned]
  | cons r rs ih =>
    rw [scanRoots, ih, scanFiles_rows]
    simp [scanned]

/-- **One row for each ELF file with a segment below the limit.** -/
theorem rows_eq (roots : List Bytes) :
    (alignment_scan readelf tree roots).rows =
      (scanned tree roots).filterMap fun f => rowOf f.path (loadWords (readelf f)) :=
  scanRoots_rows readelf tree roots .start

theorem tallied (roots : List Bytes) : Tallied (alignment_scan readelf tree roots) := by
  have hfiles : ∀ (xs : List File) (v : Vars), Tallied v → Tallied (scanFiles readelf xs v) := by
    intro xs
    induction xs with
    | nil => exact fun v hv => ⟨hv.bad, hv.known, hv.notes⟩
    | cons x xs ih =>
      intro v hv
      simp only [scanFiles]
      split
      · exact ih _ ⟨hv.bad, hv.known, hv.notes⟩
      · exact ih _ (Tallied.segments _ ⟨hv.bad, hv.known, hv.notes⟩)
  have hroots : ∀ (rs : List Bytes) (v : Vars), Tallied v →
      Tallied (scanRoots readelf tree rs v) := by
    intro rs
    induction rs with
    | nil => exact fun v hv => hv
    | cons r rs ih => exact fun v hv => ih _ (hfiles _ _ ⟨hv.bad, hv.known, hv.notes⟩)
  exact hroots roots .start ⟨rfl, rfl, rfl⟩

end

/-! ## Words and alignments -/

/-- The first word below the limit is the one that stands for the first alignment below it. -/
theorem find_words {ws : List Bytes} {loads : List (BitVec 64)}
    (h : ws.map constant = loads.map fun a => some a.toNat) :
    Option.Rel (fun w a => constant w = some a.toNat) (ws.find? below) (loads.find? isBelow) := by
  induction loads generalizing ws with
  | nil =>
    rw [List.map_eq_nil_iff.1 h]
    exact .none
  | cons a loads ih =>
    cases ws with
    | nil => simp at h
    | cons w ws =>
      rw [List.map_cons, List.map_cons, List.cons.injEq] at h
      have hw : below w = isBelow a := by
        rw [below, h.1, Option.any_some, BitVec.ofNat_toNat, BitVec.setWidth_eq]
      rw [List.find?_cons, List.find?_cons, hw]
      cases isBelow a with
      | true => exact .some h.1
      | false => exact ih h.2

theorem isBelow_of_lt {a : BitVec 64} (h : a.toNat < pageSize) : isBelow a = true := by
  have : a.toInt = a.toNat := by
    apply BitVec.toInt_eq_toNat_of_lt
    simp only [pageSize] at h
    omega
  rw [isBelow, decide_eq_true_eq, this]
  exact_mod_cast h

/-- The first of a smaller kind, when the first of a larger kind is of it. -/
theorem find?_of_imp {α : Type} {p q : α → Bool} {l : List α} {a : α} (h : l.find? p = some a)
    (ha : q a = true) (hq : ∀ x, q x = true → p x = true) : l.find? q = some a := by
  obtain ⟨-, xs, ys, rfl, hxs⟩ := List.find?_eq_some_iff_append.1 h
  refine List.find?_eq_some_iff_append.2 ⟨ha, xs, ys, rfl, fun x hx => ?_⟩
  have := hxs x hx
  cases hqx : q x with
  | false => rfl
  | true => simp [hq x hqx] at this

/-! ## Right verdict, right evidence -/

/-- The name of a file, without its directories. -/
def fileName (f : File) : Bytes := f.path.rtakeWhile (· ≠ slash)

/-- `*.so` or `*.so.*`. -/
def SharedObject (f : File) : Prop := bytes ".so" <:+ fileName f ∨ bytes ".so." <:+: fileName f

instance (f : File) : Decidable (SharedObject f) := inferInstanceAs (Decidable (_ ∨ _))

def InClass (f : File) : Kind → Prop
  | .note => ¬ SharedObject f
  | .okKnown => SharedObject f ∧ fileName f ∈ allow
  | .misaligned => SharedObject f ∧ fileName f ∉ allow

/-- A row names one of the files `fs`, of its class, and that file's first alignment below the
limit. -/
def Evidence (fs : List File) (r : Row) : Prop :=
  ∃ f ∈ fs, r.path = f.path ∧ InClass f r.kind ∧
    ∃ a, f.loads.find? (·.toNat < pageSize) = some a ∧ constant r.word = some a.toNat

/-- No shared object that is not on the allow list has a segment below the limit. -/
def Aligned (fs : List File) : Prop :=
  ∀ f ∈ fs, SharedObject f → fileName f ∉ allow → ∀ a ∈ f.loads, pageSize ≤ a.toNat

theorem is_so_of_sharedObject {f : File} (h : SharedObject f) : is_so f.path = true := by
  have hsuf : fileName f <:+ f.path := List.rtakeWhile_suffix _ _
  rw [is_so, decide_eq_true_eq]
  rcases h with h | h
  · exact .inl (h.trans hsuf)
  · exact .inr (h.trans hsuf.isInfix)

/-- Instead of an alignment, the row of a shared object has a name. -/
theorem constant_rowAt {p w : Bytes} (h : is_so p = true) : constant (rowAt p w).word = none := by
  have hall : ∀ w ∈ allow, constant w = none := by decide
  rw [rowAt, if_neg (by simp [h])]
  split
  · rename_i hs
    exact hall _ hs
  · exact hall (bytes "libsystemd.so.0.17.0") (by decide)

section
variable {readelf : File → Bytes} {f : File} (h : LoadLines (readelf f) f.loads)
include h

theorem exists_row {a : BitVec 64} (ha : f.loads.find? isBelow = some a) :
    ∃ w, constant w = some a.toNat ∧
      rowOf f.path (loadWords (readelf f)) = some (rowAt f.path w) := by
  have hrel := find_words (loadWords_eq h)
  rw [ha] at hrel
  cases hw : (loadWords (readelf f)).find? below with
  | none => rw [hw] at hrel; cases hrel
  | some w =>
    rw [hw] at hrel
    cases hrel with
    | some hwa => exact ⟨w, hwa, by rw [rowOf, hw, Option.map_some]⟩

theorem row_inv {r : Row} (hr : rowOf f.path (loadWords (readelf f)) = some r) :
    ∃ w a, r = rowAt f.path w ∧ f.loads.find? isBelow = some a ∧ constant w = some a.toNat := by
  obtain ⟨w, hw, rfl⟩ := Option.map_eq_some_iff.1 hr
  have hrel := find_words (loadWords_eq h)
  rw [hw] at hrel
  cases ha : f.loads.find? isBelow with
  | none => rw [ha] at hrel; cases hrel
  | some a =>
    rw [ha] at hrel
    cases hrel with
    | some hwa => exact ⟨w, a, rfl, rfl, hwa⟩

end

/-- The files that the scan reports right: their first alignment below the limit is that of no
shared object, and no negative number. -/
def Harmless (f : File) : Prop :=
  ∀ a, f.loads.find? isBelow = some a → is_so f.path = false ∧ a.toNat < pageSize

/-- The row of such a file is a note with its alignment. -/
theorem Harmless.evidence {fs : List File} {f : File} (hH : Harmless f) (hf : f ∈ fs)
    {readelf : File → Bytes} (h : LoadLines (readelf f) f.loads) {r : Row}
    (hr : rowOf f.path (loadWords (readelf f)) = some r) : r.kind = .note ∧ Evidence fs r := by
  obtain ⟨w, a, rfl, ha, hwa⟩ := row_inv h hr
  obtain ⟨hso, hlt⟩ := hH a ha
  have hnote : rowAt f.path w = ⟨.note, w, f.path⟩ := if_pos hso
  rw [hnote]
  refine ⟨rfl, f, hf, rfl, fun hs => ?_, a, ?_, hwa⟩
  · rw [is_so_of_sharedObject hs] at hso
    cases hso
  · exact find?_of_imp ha (decide_eq_true hlt) fun x hx => isBelow_of_lt (of_decide_eq_true hx)

theorem aligned_of_harmless {fs : List File} (h : ∀ f ∈ fs, Harmless f) : Aligned fs := by
  intro f hf hs _ a ha
  by_contra hlt
  have hb := isBelow_of_lt (not_le.1 hlt)
  cases hfa : f.loads.find? isBelow with
  | none => exact absurd hb (List.find?_eq_none.1 hfa a ha)
  | some b =>
    have hso := (h f hf b hfa).1
    rw [is_so_of_sharedObject hs] at hso
    cases hso

/-- **The verdict and the rows of `alignment-scan.sh` are right iff every row is a note, with an
alignment that the shell does not take for a negative number.** -/
theorem alignment_scan_iff (readelf : File → Bytes) (tree : Bytes → List File)
    (roots : List Bytes) (hr : ∀ f ∈ scanned tree roots, LoadLines (readelf f) f.loads) :
    ((alignment_scan readelf tree roots).exitsZero = true ↔ Aligned (scanned tree roots)) ∧
      (∀ r ∈ (alignment_scan readelf tree roots).rows, Evidence (scanned tree roots) r) ↔
    ∀ f ∈ scanned tree roots, Harmless f := by
  rw [rows_eq]
  constructor
  · rintro ⟨-, hrows⟩ f hf a ha
    obtain ⟨w, hwa, hrow⟩ := exists_row (hr f hf) ha
    obtain ⟨f', -, -, -, a', ha', hword⟩ := hrows _ (List.mem_filterMap.2 ⟨f, hf, hrow⟩)
    cases hso : is_so f.path with
    | true => rw [constant_rowAt hso] at hword; cases hword
    | false =>
      rw [rowAt, if_pos hso] at hword
      have he : a'.toNat = a.toNat := Option.some.inj (hword.symm.trans hwa)
      have hlt : a'.toNat < pageSize := by simpa using List.find?_some ha'
      exact ⟨rfl, he ▸ hlt⟩
  · intro hcond
    have hrow : ∀ r ∈ (scanned tree roots).filterMap fun f =>
        rowOf f.path (loadWords (readelf f)), r.kind = .note ∧ Evidence (scanned tree roots) r := by
      intro r hrm
      obtain ⟨f, hf, hrf⟩ := List.mem_filterMap.1 hrm
      exact Harmless.evidence (hcond f hf) hf (hr f hf) hrf
    have hbad : (alignment_scan readelf tree roots).exitsZero = true := by
      rw [Vars.exitsZero, decide_eq_true_eq, (tallied readelf tree roots).bad, rows_eq,
        List.countP_eq_zero]
      intro r hrm
      simp [(hrow r hrm).1]
    exact ⟨⟨fun _ => aligned_of_harmless hcond, fun _ => hbad⟩, fun r hrm => (hrow r hrm).2⟩

/-! ## A library, and a program -/

/-- A file with one LOAD segment, and what `readelf -lW` prints of it. -/
def oneLoad (path : String) (a : BitVec 64) : File :=
  ⟨bytes path, .regular, 0o755#12, elfMagic, [a]⟩

def oneLoadText (f : File) : Bytes :=
  bytes "Program Headers:\n  Type           Offset   Align\n  LOAD           0x000000 0x" ++
    (if f.loads = [0x10000#64] then bytes "10000\n" else bytes "1000\n")

/-- A library with 64 KB segments and a program with 4 KB segments. -/
theorem alignment_scan_note :
    let tree : Bytes → List File := fun _ =>
      [oneLoad "/n/libfoo.so.1" 0x10000#64, oneLoad "/n/touch" 0x1000#64]
    ((alignment_scan oneLoadText tree ([bytes "/n"])).exitsZero = true ↔
        Aligned (scanned tree ([bytes "/n"]))) ∧
      ∀ r ∈ (alignment_scan oneLoadText tree ([bytes "/n"])).rows,
        Evidence (scanned tree ([bytes "/n"])) r := by
  refine (alignment_scan_iff oneLoadText _ ([bytes "/n"]) ?_).2 ?_
  · decide +kernel
  · have hs : scanned (fun _ => [oneLoad "/n/libfoo.so.1" 0x10000#64,
        oneLoad "/n/touch" 0x1000#64]) ([bytes "/n"]) =
        [oneLoad "/n/libfoo.so.1" 0x10000#64, oneLoad "/n/touch" 0x1000#64] := by decide +kernel
    intro f hf a ha
    rw [hs] at hf
    rcases List.mem_cons.1 hf with rfl | hf
    · have hn : (oneLoad "/n/libfoo.so.1" 0x10000#64).loads.find? isBelow = none := by decide
      rw [hn] at ha
      cases ha
    · obtain rfl := List.mem_singleton.1 hf
      have hn : (oneLoad "/n/touch" 0x1000#64).loads.find? isBelow = some 0x1000#64 := by decide
      rw [hn] at ha
      cases ha
      exact ⟨by decide, by decide⟩

/-- **The row of a misaligned library has the last name of the allow list for its alignment.** -/
theorem alignment_scan_wrong_row :
    let tree : Bytes → List File := fun _ => [oneLoad "/n/libfoo.so" 0x1000#64]
    (∀ f ∈ scanned tree ([bytes "/n"]), LoadLines (oneLoadText f) f.loads) ∧
    (alignment_scan oneLoadText tree ([bytes "/n"])).rows =
      [⟨.misaligned, bytes "libsystemd.so.0.17.0", bytes "/n/libfoo.so"⟩] ∧
    ¬ ∀ r ∈ (alignment_scan oneLoadText tree ([bytes "/n"])).rows,
      Evidence (scanned tree ([bytes "/n"])) r := by
  have hrows : (alignment_scan oneLoadText (fun _ => [oneLoad "/n/libfoo.so" 0x1000#64])
      ([bytes "/n"])).rows =
      [⟨.misaligned, bytes "libsystemd.so.0.17.0", bytes "/n/libfoo.so"⟩] := by decide +kernel
  refine ⟨by decide +kernel, hrows, fun h => ?_⟩
  obtain ⟨f, -, -, -, a, -, hword⟩ := h _ (hrows ▸ List.mem_singleton_self _)
  have hn : constant (bytes "libsystemd.so.0.17.0") = none := by decide
  rw [hn] at hword
  cases hword

end Tools
