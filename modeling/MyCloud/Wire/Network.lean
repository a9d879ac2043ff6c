import Mathlib.Data.List.Basic

/-!
# Networks of nodes that answer messages

Nodes put messages into a network of their own accord or in answer to a message that reaches them; others
put messages into it too. A message may reach a node never, once, or many times, in any order.

* `Run`: what can happen, one event after another.
* `Run.answered`: if nodes answer no message of nodes, they answer messages of others only.
* `Run.sent_le`: then the answers are no more than so many for each time that such a message arrives.
-/

set_option autoImplicit false

namespace Wire

section
variable {Msg : Type}

inductive Event (Msg : Type)
  /-- Others put a message into the network. -/
  | external (m : Msg)
  /-- A node does, of its own accord. -/
  | own (m : Msg)
  /-- A message reaches a node, and the node answers with these. -/
  | deliver (m : Msg) (answers : List Msg)

/-- The messages that come into the network. -/
def Event.put : Event Msg → List Msg
  | .external m => [m]
  | .own m => [m]
  | .deliver _ answers => answers

/-- The answers. -/
def Event.answers : Event Msg → List Msg
  | .deliver _ answers => answers
  | _ => []

variable (Own : Msg → Prop) (Answers : Msg → List Msg → Prop)

/-- The events so far, the last one first. -/
inductive Run : List (Event Msg) → Prop
  | nil : Run []
  | external {es : List (Event Msg)} (m : Msg) : Run es → Run (.external m :: es)
  | own {es : List (Event Msg)} {m : Msg} : Own m → Run es → Run (.own m :: es)
  | deliver {es : List (Event Msg)} {m : Msg} {answers : List Msg} : m ∈ es.flatMap Event.put →
      Answers m answers → Run es → Run (.deliver m answers :: es)

/-- Nodes do not answer what nodes put into the network. -/
structure Quiet : Prop where
  own {m : Msg} {bs : List Msg} : Own m → Answers m bs → bs = []
  answer {m b : Msg} {as bs : List Msg} : Answers m as → b ∈ as → Answers b bs → bs = []

variable {Own Answers}

/-- Where a message in the network comes from. -/
theorem Run.put_cases {es : List (Event Msg)} (h : Run Own Answers es) {m : Msg}
    (hm : m ∈ es.flatMap Event.put) :
    .external m ∈ es ∨ Own m ∨ ∃ a as, Answers a as ∧ m ∈ as := by
  induction h with
  | nil => cases hm
  | external m' _ ih =>
    rw [List.flatMap_cons, List.mem_append] at hm
    rcases hm with hm | hm
    · exact .inl (List.mem_singleton.1 hm ▸ .head _)
    · exact (ih hm).imp_left (.tail _)
  | own ho _ ih =>
    rw [List.flatMap_cons, List.mem_append] at hm
    rcases hm with hm | hm
    · exact .inr (.inl (List.mem_singleton.1 hm ▸ ho))
    · exact (ih hm).imp_left (.tail _)
  | deliver _ ha _ ih =>
    rw [List.flatMap_cons, List.mem_append] at hm
    rcases hm with hm | hm
    · exact .inr (.inr ⟨_, _, ha, hm⟩)
    · exact (ih hm).imp_left (.tail _)

/-- **A message that is answered is one that others put into the network.** -/
theorem Run.answered {es : List (Event Msg)} (hq : Quiet Own Answers) (h : Run Own Answers es)
    {m : Msg} {bs : List Msg} (hd : .deliver m bs ∈ es) (hne : bs ≠ []) : .external m ∈ es := by
  induction h with
  | nil => cases hd
  | external _ _ ih =>
    rcases List.mem_cons.1 hd with hd | hd
    · cases hd
    · exact .tail _ (ih hd)
  | own _ _ ih =>
    rcases List.mem_cons.1 hd with hd | hd
    · cases hd
    · exact .tail _ (ih hd)
  | deliver hm ha hr ih =>
    rcases List.mem_cons.1 hd with hd | hd
    · cases hd
      rcases hr.put_cases hm with he | ho | ⟨a, as, has, hmem⟩
      · exact .tail _ he
      · exact absurd (hq.own ho ha) hne
      · exact absurd (hq.answer has hmem ha) hne
    · exact .tail _ (ih hd)

open Classical in
/-- How often a message that others put into the network arrives, in these events and those before. -/
noncomputable def arrivals : List (Event Msg) → ℕ
  | [] => 0
  | .deliver m _ :: es => (if .external m ∈ es then 1 else 0) + arrivals es
  | _ :: es => arrivals es

/-- **The answers are no more than `k` for each arrival of a message of others.** -/
theorem Run.sent_le {es : List (Event Msg)} (hq : Quiet Own Answers) {k : ℕ}
    (hk : ∀ m bs, Answers m bs → bs.length ≤ k) (h : Run Own Answers es) :
    (es.flatMap Event.answers).length ≤ k * arrivals es := by
  induction h with
  | nil => exact Nat.zero_le _
  | external _ _ ih => exact ih
  | own _ _ ih => exact ih
  | @deliver es m bs hm ha hr ih =>
    rw [List.flatMap_cons, List.length_append, arrivals, Nat.mul_add]
    refine Nat.add_le_add ?_ ih
    by_cases hne : bs = []
    · rw [hne]
      exact Nat.zero_le _
    · have he : .external m ∈ es := by
        have := (Run.deliver hm ha hr).answered hq (.head _) hne
        exact (List.mem_cons.1 this).resolve_left (by simp)
      rw [if_pos he, Nat.mul_one]
      exact hk m bs ha

end

end Wire
