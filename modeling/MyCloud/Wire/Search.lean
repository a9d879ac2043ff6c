import MyCloud.Shell.Text

/-!
# Searching a text

`cut pat t` splits a text around the first occurrence of a pattern, as `strstr` finds it.

* `cut_eq`: the occurrence that is found.
* `Clear pat l`: no occurrence of `pat` begins in `l`, whatever follows.
* `cut_clear`: what is clear is passed over.
-/

set_option autoImplicit false

namespace Wire

open Shell

section
variable {α : Type} [DecidableEq α]

/-! ## The first occurrence -/

/-- What stands before the first occurrence, and what stands behind it. -/
def cut (pat : List α) : List α → Option (List α × List α)
  | [] => if pat = [] then some ([], []) else none
  | c :: t =>
    if pat <+: c :: t then some ([], (c :: t).drop pat.length)
    else (cut pat t).map fun r => (c :: r.1, r.2)

theorem cut_append_self (pat t : List α) : cut pat (pat ++ t) = some ([], t) := by
  cases h : pat ++ t with
  | nil =>
    obtain ⟨rfl, rfl⟩ := List.append_eq_nil_iff.1 h
    rfl
  | cons c u =>
    rw [cut, if_pos (h ▸ List.prefix_append pat t), ← h, List.drop_left]

theorem cut_eq {pat t a b : List α} (h : cut pat t = some (a, b)) : t = a ++ pat ++ b := by
  induction t generalizing a with
  | nil =>
    rw [cut] at h
    split at h
    · rename_i hp
      cases h
      rw [hp]
      rfl
    · cases h
  | cons c t ih =>
    rw [cut] at h
    split at h
    · rename_i hp
      cases h
      exact (List.prefix_iff_eq_append.1 hp).symm
    · obtain ⟨⟨a', b'⟩, h', he⟩ := Option.map_eq_some_iff.1 h
      cases he
      rw [ih h']
      rfl

theorem cut_eq_none_iff {pat t : List α} : cut pat t = none ↔ ¬ pat <:+: t := by
  induction t with
  | nil =>
    rw [cut, List.infix_nil]
    split <;> simp_all
  | cons c t ih =>
    rw [cut, List.infix_cons_iff, not_or]
    split
    · rename_i h
      simp [h]
    · rename_i h
      rw [Option.map_eq_none_iff, ih]
      exact ⟨fun h' => ⟨h, h'⟩, fun h' => h'.2⟩

/-! ## Texts in which no occurrence begins -/

/-- No occurrence of `pat` begins in the text, whatever follows. -/
def Clear (pat : List α) : List α → Prop
  | [] => True
  | c :: t => (¬ pat <+: c :: t ∧ ¬ c :: t <+: pat) ∧ Clear pat t

instance decidableClear (pat : List α) : (l : List α) → Decidable (Clear pat l)
  | [] => isTrue trivial
  | c :: t =>
    have := decidableClear pat t
    inferInstanceAs (Decidable ((¬ pat <+: c :: t ∧ ¬ c :: t <+: pat) ∧ Clear pat t))

omit [DecidableEq α] in
theorem Clear.append {pat l r : List α} (hl : Clear pat l) (hr : Clear pat r) :
    Clear pat (l ++ r) := by
  induction l with
  | nil => exact hr
  | cons c t ih =>
    obtain ⟨⟨h1, h2⟩, ht⟩ := hl
    refine ⟨⟨fun h => ?_, fun h => ?_⟩, ih ht⟩
    · rcases List.prefix_or_prefix_of_prefix h (List.prefix_append (c :: t) r) with h | h
      · exact h1 h
      · exact h2 h
    · exact h2 ((List.prefix_append (c :: t) r).trans h)

omit [DecidableEq α] in
theorem clear_flatten {pat : List α} {ls : List (List α)} (h : ∀ l ∈ ls, Clear pat l) :
    Clear pat ls.flatten := by
  induction ls with
  | nil => trivial
  | cons l ls ih =>
    rw [List.forall_mem_cons] at h
    exact h.1.append (ih h.2)

omit [DecidableEq α] in
/-- A text without the first element of the pattern. -/
theorem clear_of_notMem {a : α} {pat l : List α} (h : a ∉ l) : Clear (a :: pat) l := by
  induction l with
  | nil => trivial
  | cons c t ih =>
    rw [List.mem_cons, not_or] at h
    obtain ⟨hc, ht⟩ := h
    refine ⟨⟨fun h => hc (List.cons_prefix_cons.1 h).1, fun h => hc ?_⟩, ih ht⟩
    exact (List.cons_prefix_cons.1 h).1.symm

theorem cut_clear {pat l : List α} (h : Clear pat l) (t : List α) :
    cut pat (l ++ t) = (cut pat t).map fun r => (l ++ r.1, r.2) := by
  induction l with
  | nil => simp
  | cons c l ih =>
    obtain ⟨⟨h1, h2⟩, hl⟩ := h
    have hno : ¬ pat <+: c :: (l ++ t) := by
      intro hp
      rcases List.prefix_or_prefix_of_prefix hp (List.prefix_append (c :: l) t) with hp | hp
      · exact h1 hp
      · exact h2 hp
    rw [List.cons_append, cut, if_neg hno, ih hl, Option.map_map]
    rfl

/-- The first occurrence behind a clear text. -/
theorem cut_clear_append {pat l : List α} (h : Clear pat l) (t : List α) :
    cut pat (l ++ (pat ++ t)) = some (l, t) := by
  rw [cut_clear h, cut_append_self]
  simp

end

end Wire
