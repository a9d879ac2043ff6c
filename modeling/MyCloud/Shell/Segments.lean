import Mathlib.Data.List.Basic
import Mathlib.Data.List.Infix

/-!
# Lists cut at headers

`segments hd xs`: the items before the first header and, for each header, the items up to the
next one. `skipFrom hd tgt` is the one-flag filter that leaves out the segments headed by `tgt`
(the flag says whether the items are being left out); it filters the segments
(`segments_skip`). Appending a segment appends to the list of segments (`segments_append`).

The same filter over segments with more headers (`hd'`) keeps whole segments
(`segments_skipFrom_coarse`); it leaves out those whose header is in `p` iff its flag agrees with
`p` at every header (`keptFrom_eq_filter_iff`).
-/

set_option autoImplicit false

namespace Shell

variable {α : Type}

def segments (hd : α → Bool) : List α → List α × List (α × List α)
  | [] => ([], [])
  | x :: xs =>
    let r := segments hd xs
    if hd x then ([], (x, r.1) :: r.2) else (x :: r.1, r.2)

/-- The filter with a flag: at a header the flag is set when the header is `tgt`. -/
def skipFrom [DecidableEq α] (hd : α → Bool) (tgt : α) : Bool → List α → List α
  | _, [] => []
  | skip, x :: xs =>
    let skip := if hd x then decide (x = tgt) else skip
    if skip then skipFrom hd tgt skip xs else x :: skipFrom hd tgt skip xs

/-- The items of the segments, in order. -/
def unsegments (r : List α × List (α × List α)) : List α := r.1 ++ r.2.flatMap fun s => s.1 :: s.2

section
variable {hd : α → Bool}

@[simp] theorem segments_nil : segments hd [] = ([], []) := rfl

theorem segments_header {x : α} (hx : hd x = true) (xs : List α) :
    segments hd (x :: xs) = ([], (x, (segments hd xs).1) :: (segments hd xs).2) := by
  simp [segments, hx]

theorem segments_item {x : α} (hx : hd x = false) (xs : List α) :
    segments hd (x :: xs) = (x :: (segments hd xs).1, (segments hd xs).2) := by
  simp [segments, hx]

theorem unsegments_segments (xs : List α) : unsegments (segments hd xs) = xs := by
  induction xs with
  | nil => rfl
  | cons x xs ih =>
    cases hx : hd x with
    | true => rw [segments_header hx]; simpa [unsegments] using ih
    | false => rw [segments_item hx]; simpa [unsegments] using ih

theorem hd_of_mem_segments {xs : List α} {s : α × List α} (h : s ∈ (segments hd xs).2) :
    hd s.1 = true := by
  induction xs with
  | nil => simp at h
  | cons x xs ih =>
    cases hx : hd x with
    | true =>
      rw [segments_header hx, List.mem_cons] at h
      rcases h with rfl | h
      · exact hx
      · exact ih h
    | false =>
      rw [segments_item hx] at h
      exact ih h

/-- A header of the list is a header of a segment. -/
theorem preamble_item {xs : List α} {x : α} (h : x ∈ (segments hd xs).1) : hd x = false := by
  induction xs with
  | nil => simp at h
  | cons y ys ih =>
    cases hy : hd y with
    | true => rw [segments_header hy] at h; simp at h
    | false =>
      rw [segments_item hy] at h
      rcases List.mem_cons.1 h with rfl | h
      · exact hy
      · exact ih h

/-- No item of a segment is a header. -/
theorem body_item {xs : List α} {s : α × List α} (h : s ∈ (segments hd xs).2) {x : α}
    (hx : x ∈ s.2) : hd x = false := by
  induction xs with
  | nil => simp at h
  | cons y ys ih =>
    cases hy : hd y with
    | true =>
      rw [segments_header hy, List.mem_cons] at h
      rcases h with rfl | h
      · exact preamble_item hx
      · exact ih h
    | false =>
      rw [segments_item hy] at h
      exact ih h

theorem segments_headers (xs : List α) : (segments hd xs).2.map (·.1) = xs.filter hd := by
  induction xs with
  | nil => rfl
  | cons x xs ih =>
    cases hx : hd x with
    | true => rw [segments_header hx, List.filter_cons_of_pos hx, ← ih]; rfl
    | false => rw [segments_item hx, List.filter_cons_of_neg (by simp [hx]), ← ih]

theorem mem_segments_of_hd {xs : List α} {x : α} (hx : x ∈ xs) (hh : hd x = true) :
    ∃ s ∈ (segments hd xs).2, s.1 = x := by
  induction xs with
  | nil => simp at hx
  | cons y ys ih =>
    cases hy : hd y with
    | true =>
      rw [segments_header hy]
      rcases List.mem_cons.1 hx with rfl | hx
      · exact ⟨_, List.mem_cons_self, rfl⟩
      · obtain ⟨s, hs, h⟩ := ih hx
        exact ⟨s, List.mem_cons_of_mem _ hs, h⟩
    | false =>
      rw [segments_item hy]
      rcases List.mem_cons.1 hx with rfl | hx
      · rw [hh] at hy; cases hy
      · exact ih hx

theorem header_mem {xs : List α} {s : α × List α} (h : s ∈ (segments hd xs).2) : s.1 ∈ xs := by
  have hm : s.1 ∈ unsegments (segments hd xs) :=
    List.mem_append_right _ (List.mem_flatMap.2 ⟨s, h, List.mem_cons_self⟩)
  rwa [unsegments_segments] at hm

/-- A list without headers is no segment. -/
theorem segments_of_no_header {xs : List α} (h : ∀ x ∈ xs, hd x = false) :
    segments hd xs = (xs, []) := by
  induction xs with
  | nil => rfl
  | cons x xs ih =>
    rw [segments_item (h x List.mem_cons_self), ih fun y hy => h y (List.mem_cons_of_mem _ hy)]

/-- Appending a header and its items appends a segment. -/
theorem segments_append (xs : List α) {y : α} (hy : hd y = true) (ys : List α) :
    segments hd (xs ++ y :: ys) =
      ((segments hd xs).1, (segments hd xs).2 ++ (segments hd (y :: ys)).2) := by
  induction xs with
  | nil => simp [segments_header hy]
  | cons x xs ih =>
    cases hx : hd x with
    | true => simp [segments_header hx, ih]
    | false => simp [segments_item hx, ih]

/-- An item at the end goes to the last segment, and before the first header if there is none. -/
theorem segments_snoc_item (xs : List α) {y : α} (hy : hd y = false) :
    segments hd (xs ++ [y]) =
      match (segments hd xs).2.getLast? with
      | none => ((segments hd xs).1 ++ [y], [])
      | some s => ((segments hd xs).1, (segments hd xs).2.dropLast ++ [(s.1, s.2 ++ [y])]) := by
  induction xs with
  | nil => simp [segments_item hy]
  | cons x xs ih =>
    cases hx : hd x with
    | true =>
      simp only [List.cons_append, segments_header hx, ih]
      cases h : (segments hd xs).2 with
      | nil => simp
      | cons s ss => simp [List.getLast?_cons]
    | false =>
      simp only [List.cons_append, segments_item hx, ih]
      cases h : (segments hd xs).2.getLast? with
      | none => simp
      | some s => simp

variable [DecidableEq α] {tgt : α}

/-- The filter leaves out the items up to the next header, and the segments headed by `tgt`. -/
theorem segments_skipFrom (skip : Bool) (xs : List α) :
    segments hd (skipFrom hd tgt skip xs) =
      (if skip then [] else (segments hd xs).1,
        (segments hd xs).2.filter fun s => s.1 ≠ tgt) := by
  induction xs generalizing skip with
  | nil => cases skip <;> simp [skipFrom]
  | cons x xs ih =>
    cases hx : hd x with
    | true =>
      by_cases ht : x = tgt
      · subst ht
        simp [skipFrom, hx, ih, segments_header hx]
      · simp [skipFrom, hx, ht, segments_header hx, ih]
    | false =>
      cases skip with
      | true => simp [skipFrom, hx, ih, segments_item hx]
      | false => simp [skipFrom, hx, segments_item hx, ih]

theorem segments_skip (xs : List α) :
    segments hd (skipFrom hd tgt false xs) =
      ((segments hd xs).1, (segments hd xs).2.filter fun s => s.1 ≠ tgt) := by
  simp [segments_skipFrom]

/-- The filter undoes the appending of a segment whose header is not in the list. -/
theorem skipFrom_append_tgt {xs ys : List α} (hxs : tgt ∉ xs) (ht : hd tgt = true)
    (hys : ∀ y ∈ ys, hd y = false) : skipFrom hd tgt false (xs ++ tgt :: ys) = xs := by
  induction xs with
  | nil =>
    -- from the target on the flag stays set
    have hskip : skipFrom hd tgt true ys = [] := by
      clear hxs
      induction ys with
      | nil => rfl
      | cons y ys ih =>
        simp [skipFrom, hys y List.mem_cons_self, ih fun z hz => hys z (List.mem_cons_of_mem _ hz)]
    simp [skipFrom, ht, hskip]
  | cons x xs ih =>
    simp only [List.mem_cons, not_or] at hxs
    simp [skipFrom, ih hxs.2, Ne.symm hxs.1]

theorem skipFrom_sublist (skip : Bool) (xs : List α) : (skipFrom hd tgt skip xs).Sublist xs := by
  induction xs generalizing skip with
  | nil => exact List.Sublist.refl _
  | cons x xs ih =>
    simp only [skipFrom]
    generalize (if hd x then decide (x = tgt) else skip) = b
    cases b with
    | true => exact (ih true).cons x
    | false => exact (ih false).cons_cons x

end

/-! ## The filter over coarser segments -/

section
variable [DecidableEq α] {hd hd' : α → Bool} {tgt : α}


/-- The flag of `skipFrom` after a list. -/
def flagAfter (hd : α → Bool) (tgt : α) (skip : Bool) (xs : List α) : Bool :=
  xs.foldl (fun b x => if hd x then decide (x = tgt) else b) skip

/-- The segments at whose header the flag is not set. -/
def keptFrom (hd : α → Bool) (tgt : α) : Bool → List (α × List α) → List (α × List α)
  | _, [] => []
  | skip, s :: ss =>
    let skip := flagAfter hd tgt skip [s.1]
    if skip then keptFrom hd tgt skip ss else s :: keptFrom hd tgt skip ss

theorem skipFrom_cons (skip : Bool) (x : α) (xs : List α) :
    skipFrom hd tgt skip (x :: xs) =
      if flagAfter hd tgt skip [x] then skipFrom hd tgt (flagAfter hd tgt skip [x]) xs
      else x :: skipFrom hd tgt (flagAfter hd tgt skip [x]) xs := rfl

/-- The flag is set iff the last header is the target. -/
theorem flagAfter_iff (xs : List α) :
    flagAfter hd tgt false xs = true ↔ (xs.filter hd).getLast? = some tgt := by
  induction xs using List.reverseRecOn with
  | nil => simp [flagAfter]
  | append_singleton xs x ih =>
    rw [flagAfter, List.foldl_append, List.foldl_cons, List.foldl_nil]
    cases hx : hd x with
    | true => simp [List.filter_append, hx]
    | false =>
      rw [List.filter_append, List.filter_cons_of_neg (by simp [hx]), List.filter_nil,
        List.append_nil, ← ih]
      rfl

/-- When each header of the filter is a header of the segments, it keeps or drops whole segments. -/
theorem segments_skipFrom_coarse (h : ∀ x, hd x = true → hd' x = true) (skip : Bool) (xs : List α) :
    segments hd' (skipFrom hd tgt skip xs) =
      (if skip then [] else (segments hd' xs).1, keptFrom hd tgt skip (segments hd' xs).2) := by
  induction xs generalizing skip with
  | nil => cases skip <;> rfl
  | cons x xs ih =>
    cases hx' : hd' x with
    | true =>
      rw [segments_header hx', skipFrom_cons, keptFrom]
      generalize flagAfter hd tgt skip [x] = b
      cases b with
      | true => simp [ih]
      | false => simp [segments_header hx', ih]
    | false =>
      have hx : hd x = false := Bool.eq_false_iff.2 fun hx => by simp [h x hx] at hx'
      rw [segments_item hx']
      cases skip with
      | true => simp [skipFrom, hx, ih]
      | false => simp [skipFrom, hx, segments_item hx', ih]

theorem keptFrom_sublist (hd : α → Bool) (tgt : α) (skip : Bool) (ss : List (α × List α)) :
    (keptFrom hd tgt skip ss).Sublist ss := by
  induction ss generalizing skip with
  | nil => exact List.Sublist.refl _
  | cons s ss ih =>
    simp only [keptFrom]
    split
    · exact (ih _).cons s
    · exact (ih _).cons_cons s

/-- The flag agrees with `p` at every item of the list. -/
def FlagAgrees (hd : α → Bool) (tgt : α) (skip : Bool) (p : α → Bool) (hs : List α) : Prop :=
  ∀ pre x post, hs = pre ++ x :: post → (flagAfter hd tgt skip (pre ++ [x]) = true ↔ p x = true)

theorem flagAgrees_cons {skip : Bool} {p : α → Bool} {x : α} {hs : List α} :
    FlagAgrees hd tgt skip p (x :: hs) ↔ flagAfter hd tgt skip [x] = p x ∧
      FlagAgrees hd tgt (flagAfter hd tgt skip [x]) p hs := by
  constructor
  · intro h
    refine ⟨Bool.eq_iff_iff.2 (h [] x hs rfl), fun pre y post he => ?_⟩
    exact h (x :: pre) y post (by rw [he]; rfl)
  · rintro ⟨hx, hs'⟩ pre y post he
    cases pre with
    | nil =>
      obtain ⟨rfl, rfl⟩ := List.cons.inj he
      exact Bool.eq_iff_iff.1 hx
    | cons z pre =>
      obtain ⟨rfl, rfl⟩ := List.cons.inj he
      exact hs' pre y post rfl

/-- **The filter leaves out the segments whose header is in `p`**, and no other, iff its flag
agrees with `p` at every header. -/
theorem keptFrom_eq_filter_iff (hd : α → Bool) (tgt : α) (p : α → Bool) (skip : Bool)
    (ss : List (α × List α)) :
    keptFrom hd tgt skip ss = ss.filter (fun s => !p s.1) ↔
      FlagAgrees hd tgt skip p (ss.map (·.1)) := by
  induction ss generalizing skip with
  | nil => simp [keptFrom, FlagAgrees]
  | cons s ss ih =>
    rw [List.map_cons, flagAgrees_cons, ← ih]
    generalize hb : flagAfter hd tgt skip [s.1] = b
    simp only [keptFrom, hb]
    cases b with
    | true =>
      cases hp : p s.1 with
      | true => simp [hp]
      | false =>
        -- one segment fewer is kept than there are outside `p`
        simp only [hp, Bool.not_false, List.filter_cons_of_pos, if_true, Bool.true_eq_false,
          false_and, iff_false]
        intro h
        have hk := (keptFrom_sublist hd tgt true ss).filter fun s => !p s.1
        rw [h, List.filter_cons_of_pos (by simp [hp]), List.filter_filter] at hk
        have hl := hk.length_le
        simp only [Bool.and_self, List.length_cons] at hl
        omega
    | false =>
      cases hp : p s.1 with
      | false => simp [hp]
      | true =>
        simp only [Bool.false_eq_true, if_false, false_and, iff_false]
        intro h
        have hm : s ∈ (s :: ss).filter fun s => !p s.1 := h ▸ List.mem_cons_self
        simp [hp] at hm

end

end Shell
