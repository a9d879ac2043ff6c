import MyCloud.Shell.Script

/-!
# Runs against a relation

`Runs rel p w res w'`: a complete run of `p` from `w`, where `rel c w r w'` says which answers `r` and
states `w'` command `c` may give. It describes a run seen through a part of the state (`runs_of_eval`)
or one whose other commands may answer anything. `Reaches` is a run that has not ended.

* `runs_bind_ok`: runs of a sequence.
* `runs_keeps`: what the commands keep, a run keeps.
* `Tail P p`: `p` returns a value, by commands in `P` only. `WritesLast`: after a command in `Wr`
  only a `Tail` is left; so a run that leaves by `exit` has not written (`runs_error_keeps`).
-/

set_option autoImplicit false

namespace Shell

namespace Script

variable {C : Type} {R : C → Type} {X α β W V : Type}

section
variable (rel : (c : C) → W → R c → W → Prop)

inductive Runs : Script C R X α → W → Except X α → W → Prop
  | ret (a : α) (w : W) : Runs (.ret a) w (.ok a) w
  | exit (x : X) (w : W) : Runs (.exit x) w (.error x) w
  | call {c : C} {k : R c → Script C R X α} {w w₁ w' : W} {r : R c} {res : Except X α} :
      rel c w r w₁ → Runs (k r) w₁ res w' → Runs (.call c k) w res w'

/-- A run of `p` from `w` that has got to `q` and `w'`. -/
inductive Reaches (p : Script C R X α) (w : W) : Script C R X α → W → Prop
  | refl : Reaches p w p w
  | snoc {c : C} {k : R c → Script C R X α} {w₁ w₂ : W} {r : R c} :
      Reaches p w (.call c k) w₁ → rel c w₁ r w₂ → Reaches p w (k r) w₂

end

variable {rel : (c : C) → W → R c → W → Prop} {w w' : W} {res : Except X α}

@[simp] theorem runs_ret {a : α} :
    Runs rel (Script.ret a : Script C R X α) w res w' ↔ res = .ok a ∧ w' = w := by
  constructor
  · intro h
    cases h
    exact ⟨rfl, rfl⟩
  · rintro ⟨rfl, rfl⟩
    exact .ret a _

@[simp] theorem runs_exit {x : X} :
    Runs rel (Script.exit x : Script C R X α) w res w' ↔ res = .error x ∧ w' = w := by
  constructor
  · intro h
    cases h
    exact ⟨rfl, rfl⟩
  · rintro ⟨rfl, rfl⟩
    exact .exit x _

@[simp] theorem runs_call {c : C} {k : R c → Script C R X α} :
    Runs rel (Script.call c k) w res w' ↔ ∃ r w₁, rel c w r w₁ ∧ Runs rel (k r) w₁ res w' := by
  refine ⟨fun h => ?_, fun ⟨_, _, h₁, h₂⟩ => .call h₁ h₂⟩
  cases h with
  | call h₁ h₂ => exact ⟨_, _, h₁, h₂⟩

@[simp] theorem runs_sh {c : C} {res : Except X (R c)} :
    Runs rel (sh c : Script C R X (R c)) w res w' ↔ ∃ r, rel c w r w' ∧ res = .ok r := by
  simp only [sh, runs_call, runs_ret]
  constructor
  · rintro ⟨r, w₁, hr, rfl, rfl⟩
    exact ⟨r, hr, rfl⟩
  · rintro ⟨r, hr, rfl⟩
    exact ⟨r, w', hr, rfl, rfl⟩

@[simp] theorem runs_ite (b : Prop) {_ : Decidable b} (p q : Script C R X α) :
    Runs rel (if b then p else q) w res w' ↔
      (b ∧ Runs rel p w res w') ∨ (¬ b ∧ Runs rel q w res w') := by
  split <;> simp [*]

theorem runs_bind_ok {p : Script C R X α} {f : α → Script C R X β} {b : β} :
    Runs rel (p >>= f) w (.ok b) w' ↔
      ∃ a w₁, Runs rel p w (.ok a) w₁ ∧ Runs rel (f a) w₁ (.ok b) w' := by
  induction p generalizing w with
  | ret a => simp
  | exit x => simp
  | call c k ih =>
    simp only [call_bind, runs_call, ih]
    constructor
    · rintro ⟨r, w₁, hr, a, w₂, h₁, h₂⟩
      exact ⟨a, w₂, ⟨r, w₁, hr, h₁⟩, h₂⟩
    · rintro ⟨a, w₂, ⟨r, w₁, hr, h₁⟩, h₂⟩
      exact ⟨r, w₁, hr, a, w₂, h₁, h₂⟩

/-- A run on the states `V` is one on what `g` shows of them. -/
theorem runs_of_eval {step : (c : C) → V → R c × V} {g : V → W}
    (h : ∀ c v, rel c (g v) (step c v).1 (g (step c v).2)) (p : Script C R X α) (v : V) :
    Runs rel p (g v) (p.eval step v).1 (g (p.eval step v).2) := by
  induction p generalizing v with
  | ret a => exact .ret a _
  | exit x => exact .exit x _
  | call c k ih => exact .call (h c v) (ih _ _)

theorem runs_keeps {P : C → Prop} {I : W → Prop} {p : Script C R X α} (hp : p.Uses P)
    (hs : ∀ c, P c → ∀ w r w', rel c w r w' → I w → I w') (h : Runs rel p w res w') (hw : I w) :
    I w' := by
  induction h with
  | ret | exit => exact hw
  | call hr _ ih => exact ih (hp.2 _) (hs _ hp.1 _ _ _ hr hw)

theorem Reaches.runs {p q : Script C R X α} {w₁ : W} (h : Reaches rel p w q w₁)
    (hq : Runs rel q w₁ res w') : Runs rel p w res w' := by
  induction h with
  | refl => exact hq
  | snoc _ hr ih => exact ih (.call hr hq)

/-! ## The end of a script -/

/-- The script returns a value, whatever the answers, and its commands are in `P`. -/
def Tail (P : C → Prop) : Script C R X α → Prop
  | .ret _ => True
  | .exit _ => False
  | .call c k => P c ∧ ∀ r, (k r).Tail P

/-- After a command in `Wr` a tail of commands in `P` is left. -/
def WritesLast (Wr P : C → Prop) : Script C R X α → Prop
  | .ret _ => True
  | .exit _ => True
  | .call c k => (Wr c → ∀ r, (k r).Tail P) ∧ ∀ r, (k r).WritesLast Wr P

section
variable {Wr P : C → Prop}

@[simp] theorem tail_ret (a : α) : (Script.ret a : Script C R X α).Tail P := trivial
@[simp] theorem tail_call (c : C) (k : R c → Script C R X α) :
    (Script.call c k).Tail P ↔ P c ∧ ∀ r, (k r).Tail P := Iff.rfl
@[simp] theorem tail_sh (c : C) : (sh c : Script C R X (R c)).Tail P ↔ P c := by simp [sh]
@[simp] theorem tail_ite (b : Prop) {_ : Decidable b} (p q : Script C R X α) :
    (if b then p else q).Tail P ↔ (b → p.Tail P) ∧ (¬ b → q.Tail P) := by split <;> simp [*]

@[simp] theorem writesLast_ret (a : α) : (Script.ret a : Script C R X α).WritesLast Wr P := trivial
@[simp] theorem writesLast_exit (x : X) : (Script.exit x : Script C R X α).WritesLast Wr P := trivial
@[simp] theorem writesLast_call (c : C) (k : R c → Script C R X α) :
    (Script.call c k).WritesLast Wr P ↔
      (Wr c → ∀ r, (k r).Tail P) ∧ ∀ r, (k r).WritesLast Wr P := Iff.rfl
@[simp] theorem writesLast_sh (c : C) : (sh c : Script C R X (R c)).WritesLast Wr P := by simp [sh]
@[simp] theorem writesLast_ite (b : Prop) {_ : Decidable b} (p q : Script C R X α) :
    (if b then p else q).WritesLast Wr P ↔
      (b → p.WritesLast Wr P) ∧ (¬ b → q.WritesLast Wr P) := by split <;> simp [*]

theorem tail_bind {p : Script C R X α} {f : α → Script C R X β} (hp : p.Tail P)
    (hf : ∀ a, (f a).Tail P) : (p >>= f).Tail P := by
  induction p with
  | ret a => exact hf a
  | exit x => exact hp.elim
  | call c k ih => exact ⟨hp.1, fun r => ih r (hp.2 r)⟩

theorem Tail.writesLast {p : Script C R X α} (hp : p.Tail P) (h : ∀ c, P c → ¬ Wr c) :
    p.WritesLast Wr P := by
  induction p with
  | ret a => trivial
  | exit x => trivial
  | call c k ih => exact ⟨fun hc => absurd hc (h c hp.1), fun r => ih r (hp.2 r)⟩

/-- The writing part first, then a tail. -/
theorem writesLast_bind_tail {p : Script C R X α} {f : α → Script C R X β}
    (hp : p.WritesLast Wr P) (hf : ∀ a, (f a).Tail P) (h : ∀ c, P c → ¬ Wr c) :
    (p >>= f).WritesLast Wr P := by
  induction p with
  | ret a => exact (hf a).writesLast h
  | exit x => trivial
  | call c k ih =>
    exact ⟨fun hc r => tail_bind (hp.1 hc r) hf, fun r => ih r (hp.2 r)⟩

/-- A part that does not write, then the writing part. -/
theorem writesLast_bind {p : Script C R X α} {f : α → Script C R X β}
    (hp : p.Uses fun c => ¬ Wr c) (hf : ∀ a, (f a).WritesLast Wr P) :
    (p >>= f).WritesLast Wr P := by
  induction p with
  | ret a => exact hf a
  | exit x => trivial
  | call c k ih => exact ⟨fun hc => absurd hc hp.1, fun r => ih r (hp.2 r)⟩

theorem writesLast_of_uses {p : Script C R X α} (hp : p.Uses fun c => ¬ Wr c) :
    p.WritesLast Wr P := by
  induction p with
  | ret a => trivial
  | exit x => trivial
  | call c k ih => exact ⟨fun hc => absurd hc hp.1, fun r => ih r (hp.2 r)⟩

theorem Tail.not_error {p : Script C R X α} {x : X} (hp : p.Tail P) :
    ¬ Runs rel p w (.error x) w' := by
  intro h
  induction p generalizing w with
  | ret a => cases (runs_ret.1 h).1
  | exit x => exact hp
  | call c k ih =>
    obtain ⟨r, w₁, -, h⟩ := runs_call.1 h
    exact ih r (hp.2 r) h

/-- **A script that leaves by `exit` has not come to its writes**: it keeps what the others keep. -/
theorem runs_error_keeps {I : W → Prop} {p : Script C R X α} {x : X} (hp : p.WritesLast Wr P)
    (hs : ∀ c, ¬ Wr c → ∀ w r w', rel c w r w' → I w → I w') (h : Runs rel p w (.error x) w')
    (hw : I w) : I w' := by
  induction p generalizing w with
  | ret a => cases (runs_ret.1 h).1
  | exit x => exact (runs_exit.1 h).2 ▸ hw
  | call c k ih =>
    obtain ⟨r, w₁, hr, h⟩ := runs_call.1 h
    by_cases hc : Wr c
    · exact absurd h (hp.1 hc r).not_error
    · exact ih r (hp.2 r) h (hs c hc _ _ _ hr hw)

end

end Script

end Shell
