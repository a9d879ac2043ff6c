import Mathlib.Data.List.Basic
import Mathlib.Data.List.Infix

/-!
# Texts and their records

`records sep t`: the pieces of `t` ended by `sep`, the last one also without it (how `awk`,
`grep` and `read` see a file's lines). `terminate sep ls`: each piece followed by `sep` (what
`print` and `echo` write). Appending after a separator appends records (`records_append_sep`);
the separator itself closes the last piece or adds an empty one (`records_close`).

`replaceFirst` is `${s/pat/rep}` for a literal pattern. `takeWhile_stop`, `dropWhile_stop`: a scan stops
at the first character it is not for, whatever follows.
-/

set_option autoImplicit false

namespace Shell

/-! ## Byte strings -/

abbrev Bytes := List UInt8

instance : LawfulBEq Bytes := inferInstance

instance : LawfulBEq (Bytes × Bytes) := inferInstance

/-- The bytes of a literal. -/
def bytes (s : String) : Bytes := s.toByteArray.data.toList

def nl : UInt8 := '\n'.toUInt8

variable {α : Type}

/-! ## Scans -/

theorem takeWhile_stop {p : α → Bool} {c : α} (hc : p c = false) (t r : List α) :
    (t ++ c :: r).takeWhile p = t.takeWhile p := by
  rw [List.takeWhile_append, List.takeWhile_cons_of_neg (by simp [hc]), List.append_nil]
  split
  · rename_i hl
    exact ((List.takeWhile_prefix p).eq_of_length hl).symm
  · rfl

theorem dropWhile_stop {p : α → Bool} {c : α} (hc : p c = false) (t r : List α) :
    (t ++ c :: r).dropWhile p = t.dropWhile p ++ c :: r := by
  rw [List.dropWhile_append, List.dropWhile_cons_of_neg (by simp [hc])]
  split
  · rename_i hnil
    rw [List.isEmpty_iff.1 hnil, List.nil_append]
  · rfl

theorem drop_length_takeWhile (p : α → Bool) (t : List α) :
    t.drop (t.takeWhile p).length = t.dropWhile p := by
  have h : (t.takeWhile p ++ t.dropWhile p).drop (t.takeWhile p).length = t.dropWhile p :=
    List.drop_left
  rwa [List.takeWhile_append_dropWhile] at h

/-- Where a scan stops, and what it stops at. -/
theorem dropWhile_eq_cons {p : α → Bool} {t r : List α} {c : α}
    (h : t.dropWhile p = c :: r) : p c = false ∧ c ∈ t ∧ r ⊆ t := by
  have hsub := (List.dropWhile_suffix p (l := t)).subset
  rw [h] at hsub
  have hne : t.dropWhile p ≠ [] := by simp [h]
  have hhead := List.head_dropWhile_not p hne
  simp only [h, List.head_cons] at hhead
  exact ⟨hhead, hsub (.head _), fun _ hx => hsub (List.mem_cons_of_mem _ hx)⟩

/-! ## Records -/

def records [DecidableEq α] (sep : α) : List α → List (List α)
  | [] => []
  | c :: t =>
    if c = sep then [] :: records sep t
    else match records sep t with
      | [] => [[c]]
      | l :: ls => (c :: l) :: ls

def terminate (sep : α) (ls : List (List α)) : List α := ls.flatMap (· ++ [sep])

section
variable {sep : α}

@[simp] theorem terminate_nil : terminate sep ([] : List (List α)) = [] := rfl

@[simp] theorem terminate_cons (l : List α) (ls : List (List α)) :
    terminate sep (l :: ls) = l ++ sep :: terminate sep ls := by
  simp [terminate]

@[simp] theorem terminate_append (ls ms : List (List α)) :
    terminate sep (ls ++ ms) = terminate sep ls ++ terminate sep ms := by
  simp [terminate]

theorem notMem_terminate {c : α} (hc : c ≠ sep) {ls : List (List α)} (h : ∀ l ∈ ls, c ∉ l) :
    c ∉ terminate sep ls := by
  intro hm
  obtain ⟨l, hl, hm⟩ := List.mem_flatMap.1 hm
  rcases List.mem_append.1 hm with hm | hm
  · exact h l hl hm
  · exact hc (List.mem_singleton.1 hm)

variable [DecidableEq α]

@[simp] theorem records_nil : records sep [] = [] := rfl

@[simp] theorem records_sep (t : List α) : records sep (sep :: t) = [] :: records sep t := by
  simp [records]

theorem records_eq_nil {t : List α} : records sep t = [] ↔ t = [] := by
  cases t with
  | nil => simp
  | cons c t =>
    simp only [records, List.cons_ne_nil, iff_false]
    split
    · simp
    · split <;> simp

/-- No record contains the separator. -/
theorem sep_notMem_records : ∀ (t : List α), ∀ l ∈ records sep t, sep ∉ l
  | [], l, hl => by simp at hl
  | c :: t, l, hl => by
    have ih := sep_notMem_records t
    simp only [records] at hl
    split at hl
    · rcases List.mem_cons.1 hl with rfl | hl
      · simp
      · exact ih l hl
    · rename_i hc
      split at hl
      · simp only [List.mem_singleton] at hl
        subst hl
        simpa using Ne.symm hc
      · rename_i r rs hr
        rcases List.mem_cons.1 hl with rfl | hl
        · simp [Ne.symm hc, ih r (by simp [hr])]
        · exact ih l (by simp [hr, hl])

theorem mem_of_mem_records {c : α} : ∀ {t : List α} {l : List α}, l ∈ records sep t → c ∈ l → c ∈ t
  | [], l, hl, _ => by simp at hl
  | d :: t, l, hl, hc => by
    have ih : ∀ {l}, l ∈ records sep t → c ∈ l → c ∈ d :: t := fun hl hc =>
      List.mem_cons_of_mem _ (mem_of_mem_records hl hc)
    simp only [records] at hl
    split at hl
    · rcases List.mem_cons.1 hl with rfl | hl
      · cases hc
      · exact ih hl hc
    · split at hl
      · rw [List.mem_singleton.1 hl] at hc
        rw [List.mem_singleton.1 hc]
        exact List.mem_cons_self
      · rename_i r rs hr
        rcases List.mem_cons.1 hl with rfl | hl
        · rcases List.mem_cons.1 hc with rfl | hc
          · exact List.mem_cons_self
          · exact ih (hr ▸ List.mem_cons_self) hc
        · exact ih (hr ▸ List.mem_cons_of_mem _ hl) hc

/-- More text after it makes the last record longer and leaves the others. -/
theorem records_append_prefix (t u : List α) {i : ℕ} {l : List α}
    (hl : (records sep t)[i]? = some l) : ∃ l', (records sep (t ++ u))[i]? = some l' ∧ l <+: l' := by
  induction t generalizing i l with
  | nil => simp at hl
  | cons c t ih =>
    simp only [List.cons_append, records] at hl ⊢
    split at hl
    · rename_i hc
      rw [if_pos hc]
      cases i with
      | zero => exact ⟨l, hl, List.prefix_rfl⟩
      | succ i => exact ih hl
    · rename_i hc
      rw [if_neg hc]
      cases ht : records sep t with
      | nil =>
        rw [ht] at hl
        obtain rfl := records_eq_nil.1 ht
        cases i with
        | zero =>
          obtain rfl : [c] = l := Option.some.inj hl
          cases hu : records sep u with
          | nil => exact ⟨[c], by simp [hu], List.prefix_rfl⟩
          | cons r rs => exact ⟨c :: r, by simp [hu], r, rfl⟩
        | succ i => simp at hl
      | cons r rs =>
        rw [ht] at hl
        obtain ⟨r', hr', hp⟩ := ih (i := 0) (l := r) (by rw [ht]; rfl)
        cases hu : records sep (t ++ u) with
        | nil => rw [hu] at hr'; cases hr'
        | cons q qs =>
          rw [hu] at hr'
          obtain rfl : q = r' := Option.some.inj hr'
          cases i with
          | zero =>
            obtain rfl : c :: r = l := Option.some.inj hl
            exact ⟨c :: q, rfl, (List.cons_prefix_cons).2 ⟨rfl, hp⟩⟩
          | succ i =>
            have := ih (i := i + 1) (l := l) (by rw [ht]; exact hl)
            rwa [hu] at this

theorem records_append_sep (t u : List α) :
    records sep (t ++ sep :: u) = records sep (t ++ [sep]) ++ records sep u := by
  induction t with
  | nil => simp
  | cons c t ih =>
    simp only [List.cons_append, records]
    split
    · simp [ih]
    · rw [ih]
      cases h : records sep (t ++ [sep]) with
      | nil => simp [records_eq_nil] at h
      | cons l ls => simp

/-- A separator at the end closes the last record, or adds an empty one. -/
theorem records_close (t : List α) :
    records sep (t ++ [sep]) =
      records sep t ++ if t = [] ∨ t.getLast? = some sep then [[]] else [] := by
  induction t with
  | nil => simp
  | cons c t ih =>
    simp only [List.cons_append, records]
    by_cases hc : c = sep
    · subst hc
      simp only [if_true, ih]
      cases t with
      | nil => simp
      | cons d t => simp
    · simp only [hc, if_false, ih]
      cases t with
      | nil => simp [hc]
      | cons d t =>
        have hne : records sep (d :: t) ≠ [] := by simp [records_eq_nil]
        obtain ⟨l, ls, hl⟩ := List.exists_cons_of_ne_nil hne
        simp [hl]

theorem records_piece {l : List α} (hl : sep ∉ l) (t : List α) :
    records sep (l ++ sep :: t) = l :: records sep t := by
  induction l with
  | nil => simp
  | cons c l ih =>
    have hc : c ≠ sep := fun h => hl (by simp [h])
    simp only [List.cons_append, records, hc, if_false, ih (fun h => hl (by simp [h]))]

theorem records_single {l : List α} (hl : sep ∉ l) (hne : l ≠ []) : records sep l = [l] := by
  have hc := records_piece hl []
  rw [records_close, if_neg] at hc
  · simpa using hc
  · rintro (h | h)
    · exact hne h
    · exact hl (List.mem_of_getLast? h)

theorem records_intercalate {ls : List (List α)} (h : ∀ l ∈ ls, sep ∉ l ∧ l ≠ []) :
    records sep (List.intercalate [sep] ls) = ls := by
  induction ls with
  | nil => rfl
  | cons l ls ih =>
    obtain ⟨hl, hne⟩ := h l List.mem_cons_self
    cases ls with
    | nil => rw [List.intercalate_singleton, records_single hl hne]
    | cons l' ls =>
      rw [List.intercalate_cons_cons, List.append_assoc, List.singleton_append, records_piece hl,
        ih fun m hm => h m (List.mem_cons_of_mem _ hm)]

theorem records_terminate_append (ls : List (List α)) (h : ∀ l ∈ ls, sep ∉ l) (t : List α) :
    records sep (terminate sep ls ++ t) = ls ++ records sep t := by
  induction ls with
  | nil => simp
  | cons l ls ih =>
    have hl := h l List.mem_cons_self
    simp only [terminate_cons, List.append_assoc, List.cons_append]
    rw [records_piece hl, ih fun l' hl' => h l' (List.mem_cons_of_mem _ hl')]

@[simp] theorem records_terminate {ls : List (List α)} (h : ∀ l ∈ ls, sep ∉ l) :
    records sep (terminate sep ls) = ls := by
  simpa using records_terminate_append ls h []

end

/-- Texts with a separator, one a prefix of the other: the pieces before it are the same. -/
theorem append_sep_prefix_iff {sep : α} {a b x y : List α} (ha : sep ∉ a) (hb : sep ∉ b) :
    a ++ sep :: x <+: b ++ sep :: y ↔ a = b ∧ x <+: y := by
  induction a generalizing b with
  | nil =>
    cases b with
    | nil => simp
    | cons d b =>
      simp only [List.nil_append, List.cons_append, List.cons_prefix_cons]
      exact ⟨fun h => absurd (h.1 ▸ List.mem_cons_self) hb, fun h => by simp at h⟩
  | cons c a ih =>
    cases b with
    | nil =>
      simp only [List.nil_append, List.cons_append, List.cons_prefix_cons]
      exact ⟨fun h => absurd (h.1 ▸ List.mem_cons_self) ha, fun h => by simp at h⟩
    | cons d b =>
      simp only [List.mem_cons, not_or] at ha hb
      simp only [List.cons_append, List.cons_prefix_cons, ih ha.2 hb.2, List.cons.injEq, and_assoc]

theorem append_sep_inj {sep : α} {a b x y : List α} (ha : sep ∉ a) (hb : sep ∉ b)
    (h : a ++ sep :: x = b ++ sep :: y) : a = b ∧ x = y := by
  have hp : a ++ sep :: x <+: b ++ sep :: y := by rw [h]
  obtain ⟨rfl, -⟩ := (append_sep_prefix_iff ha hb).1 hp
  exact ⟨rfl, by simpa using h⟩

theorem map_intercalate {β : Type} (f : α → β) (s : List α) (ms : List (List α)) :
    (List.intercalate s ms).map f = List.intercalate (s.map f) (ms.map (List.map f)) := by
  induction ms with
  | nil => rfl
  | cons m ms ih =>
    cases ms with
    | nil => simp
    | cons m' ms =>
      simp only [List.map_cons] at ih ⊢
      rw [List.intercalate_cons_cons, List.intercalate_cons_cons, List.map_append,
        List.map_append, ih]

theorem mem_intercalate {s c : α} {ms : List (List α)} (h : c ∈ List.intercalate [s] ms) :
    c = s ∨ ∃ m ∈ ms, c ∈ m := by
  induction ms with
  | nil => simp at h
  | cons m ms ih =>
    cases ms with
    | nil => exact .inr ⟨m, List.mem_cons_self, by simpa using h⟩
    | cons m' ms =>
      rw [List.intercalate_cons_cons, List.mem_append, List.mem_append] at h
      rcases h with (h | h) | h
      · exact .inr ⟨m, List.mem_cons_self, h⟩
      · exact .inl (List.mem_singleton.1 h)
      · exact (ih h).imp_right fun ⟨l, hl, hc⟩ => ⟨l, List.mem_cons_of_mem _ hl, hc⟩

theorem intercalate_close (sep : α) {ms : List (List α)} (h : ms ≠ []) :
    List.intercalate [sep] ms ++ [sep] = terminate sep ms := by
  induction ms with
  | nil => exact absurd rfl h
  | cons m ms ih =>
    cases ms with
    | nil => simp
    | cons m' ms =>
      have := ih (by simp)
      rw [terminate_cons, ← this]
      simp [List.intercalate]

/-- Cutting a text and closing its pieces again finds the pieces between two separators. -/
theorem infix_terminate_iff [DecidableEq α] {sep : α} {a : List α} {ms : List (List α)}
    (ha : sep ∉ a) (hne : a ≠ []) (hms : ∀ m ∈ ms, sep ∉ m) :
    sep :: (a ++ [sep]) <:+: sep :: terminate sep ms ↔ a ∈ ms := by
  constructor
  · rintro ⟨x, y, h⟩
    have hr := congrArg (records sep) h
    rw [records_sep, records_terminate hms, show x ++ sep :: (a ++ [sep]) ++ y =
      x ++ sep :: (a ++ sep :: y) by simp, records_append_sep, records_piece ha] at hr
    have hm : a ∈ [] :: ms := hr ▸ by simp
    exact (List.mem_cons.1 hm).resolve_left hne
  · intro hm
    obtain ⟨l, r, rfl⟩ := List.append_of_mem hm
    rcases List.eq_nil_or_concat l with rfl | ⟨l, z, rfl⟩
    · exact ⟨[], terminate sep r, by simp⟩
    · exact ⟨sep :: terminate sep l ++ z, terminate sep r, by simp⟩

/-- A line that starts with `p` in the first `m` characters of a text, line by line: one that
starts early enough for `p` to be complete. -/
theorem exists_records_take_iff [DecidableEq α] {sep : α} {p : List α} (hp : p ≠ [])
    {ls : List (List α)} (h : ∀ l ∈ ls, sep ∉ l) (m : ℕ) :
    (∃ r ∈ records sep ((terminate sep ls).take m), p <+: r) ↔
      ∃ pre l post, ls = pre ++ l :: post ∧ p <+: l ∧ (terminate sep pre).length + p.length ≤ m := by
  induction ls generalizing m with
  | nil => simp
  | cons l ls ih =>
    have hl : sep ∉ l := h l List.mem_cons_self
    have ih := ih fun l hl => h l (List.mem_cons_of_mem _ hl)
    -- the first line, or one of the rest
    have hsplit : (∃ pre l' post, l :: ls = pre ++ l' :: post ∧ p <+: l' ∧
        (terminate sep pre).length + p.length ≤ m) ↔ (p <+: l ∧ p.length ≤ m) ∨
        (l.length + 1 ≤ m ∧ ∃ pre l' post, ls = pre ++ l' :: post ∧ p <+: l' ∧
          (terminate sep pre).length + p.length ≤ m - (l.length + 1)) := by
      constructor
      · rintro ⟨pre, l', post, he, hpl, hm⟩
        cases pre with
        | nil =>
          obtain ⟨rfl, rfl⟩ := List.cons.inj he
          exact .inl ⟨hpl, by simpa using hm⟩
        | cons l₀ pre =>
          obtain ⟨rfl, rfl⟩ := List.cons.inj he
          have := List.length_pos_iff.2 hp
          simp only [terminate_cons, List.length_append, List.length_cons] at hm
          exact .inr ⟨by omega, pre, l', post, rfl, hpl, by omega⟩
      · rintro (⟨hpl, hm⟩ | ⟨hlm, pre, l', post, rfl, hpl, hm⟩)
        · exact ⟨[], l, ls, rfl, hpl, by simpa using hm⟩
        · refine ⟨l :: pre, l', post, rfl, hpl, ?_⟩
          simp only [terminate_cons, List.length_append, List.length_cons]
          omega
    rw [hsplit, terminate_cons]
    by_cases hm : m ≤ l.length
    · have hlt : ¬ l.length + 1 ≤ m := by omega
      have htake : (l ++ sep :: terminate sep ls).take m = l.take m :=
        List.take_append_of_le_length hm
      have hfree : sep ∉ l.take m := fun h => hl (List.mem_of_mem_take h)
      simp only [htake, hlt, false_and, or_false]
      rw [← List.prefix_take_iff]
      by_cases hnil : l.take m = []
      · simp [hnil, hp]
      · simp [records_single hfree hnil]
    · obtain ⟨d, rfl⟩ : ∃ d, m = l.length + (d + 1) := ⟨m - l.length - 1, by omega⟩
      have htake : (l ++ sep :: terminate sep ls).take (l.length + (d + 1)) =
          l ++ sep :: (terminate sep ls).take d := by
        rw [List.take_append]
        simp
      have hsub : l.length + (d + 1) - (l.length + 1) = d := by omega
      rw [htake, records_piece hl, hsub]
      simp only [List.mem_cons, exists_eq_or_imp, ih]
      refine or_congr ⟨fun hpl => ⟨hpl, ?_⟩, fun h => h.1⟩ ⟨fun h => ⟨by omega, h⟩, fun h => h.2⟩
      have := hpl.length_le
      omega

/-! ## Replacing a literal pattern -/

variable [DecidableEq α]

def replaceFirst (pat rep : List α) : List α → List α
  | [] => []
  | c :: t => if pat <+: c :: t then rep ++ (c :: t).drop pat.length else c :: replaceFirst pat rep t

theorem replaceFirst_absent {pat rep : List α} : ∀ {t : List α}, ¬ pat <:+: t →
    replaceFirst pat rep t = t
  | [], _ => rfl
  | c :: t, h => by
    have hp : ¬ pat <+: c :: t := fun hp => h hp.isInfix
    have ht : ¬ pat <:+: t := fun ht => h (ht.trans (List.suffix_cons c t).isInfix)
    simp only [replaceFirst, hp, if_false, replaceFirst_absent ht]

theorem length_replaceFirst_nil {pat : List α} (hp : pat ≠ []) : ∀ {t : List α}, pat <:+: t →
    (replaceFirst pat [] t).length < t.length
  | [], h => absurd (List.infix_nil.1 h) hp
  | c :: t, h => by
    simp only [replaceFirst]
    split
    · have : 0 < pat.length := List.length_pos_iff.2 hp
      simp; omega
    · rename_i hn
      rcases List.infix_cons_iff.1 h with h | h
      · exact absurd h hn
      · simpa using length_replaceFirst_nil hp h

/-- The test `[ "${s/pat/}" != "$s" ]`: the pattern occurs in the text. -/
theorem replaceFirst_ne_iff {pat t : List α} (hp : pat ≠ []) :
    replaceFirst pat [] t ≠ t ↔ pat <:+: t := by
  refine ⟨fun h => ?_, fun h he => ?_⟩
  · by_contra hn
    exact h (replaceFirst_absent hn)
  · have := length_replaceFirst_nil hp h
    rw [he] at this
    omega

/-- The search passes over a text without the first character of the pattern. -/
theorem replaceFirst_append {c : α} {pat rep xs : List α} (h : c ∉ xs) (t : List α) :
    replaceFirst (c :: pat) rep (xs ++ t) = xs ++ replaceFirst (c :: pat) rep t := by
  induction xs with
  | nil => rfl
  | cons d xs ih =>
    simp only [List.mem_cons, not_or] at h
    have : ¬ c :: pat <+: d :: (xs ++ t) := by simp [List.cons_prefix_cons, h.1]
    simp only [List.cons_append, replaceFirst, this, if_false, ih h.2]

end Shell
