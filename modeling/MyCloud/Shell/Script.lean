import Mathlib.Logic.Basic
import Mathlib.Data.List.Basic

/-!
# Shell scripts

`Script C R X α` is a script over the commands `C`: a tree of commands, each continued by what
the command answers. A script ends by returning a value or by `exit`, which leaves it at once from
any depth of function calls (so `f || true` does not contain an `exit` inside `f`).

The meaning of the commands is a parameter `step`; faults of the commands are in `step` too.

* `eval`: a complete run. `eval_bind`: a run of a sequence.
* `cut n`: a run interrupted before its `n + 1`-st command.
* `trace`: the commands of a complete run, each with the state it meets.
* `forEach`, `must`, `ensure`: a loop; a command, and a guarded command, under `set -e`.
* `Uses P`: every command the script can issue is in `P`. A property of the state that the
  commands in `P` keep is kept by a complete run (`eval_keeps`) and by an interrupted one
  (`cut_keeps`); `eval_frame` is the case of an observation the commands do not change.
-/

set_option autoImplicit false

namespace Shell

/-- A script over the commands `C`; command `c` answers with an `R c`. -/
inductive Script (C : Type) (R : C → Type) (X α : Type) : Type
  | ret (a : α)
  | exit (x : X)
  | call (c : C) (k : R c → Script C R X α)

namespace Script

variable {C : Type} {R : C → Type} {X α β W : Type}

def bind : Script C R X α → (α → Script C R X β) → Script C R X β
  | .ret a, f => f a
  | .exit x, _ => .exit x
  | .call c k, f => .call c fun r => (k r).bind f

instance : Monad (Script C R X) where
  pure := .ret
  bind := .bind

/-- One command. -/
def sh (c : C) : Script C R X (R c) := .call c .ret

@[simp] theorem ret_bind (a : α) (f : α → Script C R X β) :
    (Script.ret a : Script C R X α) >>= f = f a := rfl
@[simp] theorem exit_bind (x : X) (f : α → Script C R X β) :
    (Script.exit x : Script C R X α) >>= f = .exit x := rfl
@[simp] theorem call_bind (c : C) (k : R c → Script C R X α) (f : α → Script C R X β) :
    Script.call c k >>= f = .call c fun r => k r >>= f := rfl
@[simp] theorem pure_eq_ret (a : α) : (pure a : Script C R X α) = .ret a := rfl
@[simp] theorem sh_bind (c : C) (f : R c → Script C R X β) :
    (sh c : Script C R X (R c)) >>= f = .call c f := rfl

@[simp] theorem ite_bind (c : Prop) {_ : Decidable c} (p q : Script C R X α) (f : α → Script C R X β) :
    (if c then p else q) >>= f = if c then p >>= f else q >>= f := by split <;> rfl

/-- `for a in as; do ...; done`. -/
def forEach (f : α → Script C R X Unit) : List α → Script C R X Unit
  | [] => .ret ()
  | a :: as => f a >>= fun _ => forEach f as

/-- A command under `set -e`, which leaves the script when it fails. -/
def must (c : C) (x : X) : Script C (fun _ => Bool) X Unit := do
  unless ← sh c do .exit x

/-- `if ! g; then c; fi`, under `set -e`. -/
def ensure (g c : C) (x : X) : Script C (fun _ => Bool) X Unit := do
  unless ← sh g do must c x

/-! ## Runs -/

section
variable (step : (c : C) → W → R c × W)

/-- A complete run: the value returned or the `exit`, and the state left behind. -/
def eval : Script C R X α → W → Except X α × W
  | .ret a, w => (.ok a, w)
  | .exit x, w => (.error x, w)
  | .call c k, w => (k (step c w).1).eval (step c w).2

/-- The state left behind by a run killed after at most `n` commands. -/
def cut : Nat → Script C R X α → W → W
  | n + 1, .call c k, w => cut n (k (step c w).1) (step c w).2
  | _, _, w => w

/-- The commands of a complete run, each with the state it meets. -/
def trace : Script C R X α → W → List (C × W)
  | .call c k, w => (c, w) :: (k (step c w).1).trace (step c w).2
  | _, _ => []

@[simp] theorem eval_ret (a : α) (w : W) :
    (Script.ret a : Script C R X α).eval step w = (.ok a, w) := rfl
@[simp] theorem eval_exit (x : X) (w : W) :
    (Script.exit x : Script C R X α).eval step w = (.error x, w) := rfl
@[simp] theorem eval_call (c : C) (k : R c → Script C R X α) (w : W) :
    (Script.call c k).eval step w = (k (step c w).1).eval step (step c w).2 := rfl

@[simp] theorem eval_sh (c : C) (w : W) :
    (sh c : Script C R X (R c)).eval step w = (.ok (step c w).1, (step c w).2) := rfl

@[simp] theorem eval_ite (b : Prop) {_ : Decidable b} (p q : Script C R X α) (w : W) :
    (if b then p else q).eval step w = if b then p.eval step w else q.eval step w := by
  split <;> rfl

@[simp] theorem cut_zero (p : Script C R X α) (w : W) : p.cut step 0 w = w := by
  cases p <;> rfl
@[simp] theorem cut_ret (n : Nat) (a : α) (w : W) :
    (Script.ret a : Script C R X α).cut step n w = w := by cases n <;> rfl
@[simp] theorem cut_exit (n : Nat) (x : X) (w : W) :
    (Script.exit x : Script C R X α).cut step n w = w := by cases n <;> rfl
@[simp] theorem cut_call (n : Nat) (c : C) (k : R c → Script C R X α) (w : W) :
    (Script.call c k).cut step (n + 1) w = (k (step c w).1).cut step n (step c w).2 := rfl

@[simp] theorem cut_ite (n : Nat) (b : Prop) {_ : Decidable b} (p q : Script C R X α) (w : W) :
    (if b then p else q).cut step n w = if b then p.cut step n w else q.cut step n w := by
  split <;> rfl

@[simp] theorem trace_ret (a : α) (w : W) : (Script.ret a : Script C R X α).trace step w = [] := rfl
@[simp] theorem trace_exit (x : X) (w : W) : (Script.exit x : Script C R X α).trace step w = [] := rfl
@[simp] theorem trace_call (c : C) (k : R c → Script C R X α) (w : W) :
    (Script.call c k).trace step w = (c, w) :: (k (step c w).1).trace step (step c w).2 := rfl

@[simp] theorem trace_ite (b : Prop) {_ : Decidable b} (p q : Script C R X α) (w : W) :
    (if b then p else q).trace step w = if b then p.trace step w else q.trace step w := by
  split <;> rfl

theorem trace_bind (p : Script C R X α) (f : α → Script C R X β) (w : W) :
    (p >>= f).trace step w = p.trace step w ++
      match p.eval step w with
      | (.ok a, w') => (f a).trace step w'
      | (.error _, _) => [] := by
  induction p generalizing w with
  | ret a => rfl
  | exit x => rfl
  | call c k ih => exact congrArg _ (ih _ _)

/-- A run that returns, by its answer. -/
theorem eq_of_answer {r : Except X α × W} {x : Except X α} (h : r.1 = x) : r = (x, r.2) := by
  rw [← h]

/-- A run of a sequence: the first part, then, unless it left the script, the second. -/
theorem eval_bind (p : Script C R X α) (f : α → Script C R X β) (w : W) :
    (p >>= f).eval step w =
      match p.eval step w with
      | (.ok a, w') => (f a).eval step w'
      | (.error x, w') => (.error x, w') := by
  induction p generalizing w with
  | ret a => rfl
  | exit x => rfl
  | call c k ih => exact ih _ _

@[simp] theorem eval_must (step : C → W → Bool × W) (c : C) (x : X) (w : W) :
    (must c x).eval step w =
      if (step c w).1 then (.ok (), (step c w).2) else (.error x, (step c w).2) := by
  unfold must
  rw [sh_bind, eval_call]
  cases (step c w).1 <;> rfl

@[simp] theorem eval_ensure (step : C → W → Bool × W) (g c : C) (x : X) (w : W) :
    (ensure g c x).eval step w =
      if (step g w).1 then (.ok (), (step g w).2) else (must c x).eval step (step g w).2 := by
  unfold ensure
  rw [sh_bind, eval_call]
  cases (step g w).1 <;> rfl

/-- Enough commands make an interrupted run complete. -/
theorem cut_eq_eval (p : Script C R X α) (w : W) :
    ∃ n, ∀ m ≥ n, p.cut step m w = (p.eval step w).2 := by
  induction p generalizing w with
  | ret a => exact ⟨0, fun m _ => by simp⟩
  | exit x => exact ⟨0, fun m _ => by simp⟩
  | call c k ih =>
    obtain ⟨n, hn⟩ := ih (step c w).1 (step c w).2
    refine ⟨n + 1, fun m hm => ?_⟩
    obtain ⟨m, rfl⟩ : ∃ m', m = m' + 1 := ⟨m - 1, by omega⟩
    exact hn m (by omega)

end

theorem mem_trace_bind {step : (c : C) → W → R c × W} {p : Script C R X α}
    {f : α → Script C R X β} {w : W} {q : C × W} :
    q ∈ (p >>= f).trace step w ↔ q ∈ p.trace step w ∨
      ∃ a w₁, p.eval step w = (.ok a, w₁) ∧ q ∈ (f a).trace step w₁ := by
  rw [trace_bind, List.mem_append]
  rcases p.eval step w with ⟨a | a, w₁⟩ <;> simp

theorem eval_bind_ok {step : (c : C) → W → R c × W} {p : Script C R X α}
    {f : α → Script C R X β} {w w' : W} {b : β} :
    (p >>= f).eval step w = (.ok b, w') ↔
      ∃ a w₁, p.eval step w = (.ok a, w₁) ∧ (f a).eval step w₁ = (.ok b, w') := by
  rw [eval_bind]
  rcases p.eval step w with ⟨a | a, w₁⟩ <;> simp

/-- The state after a loop whose rounds return. -/
theorem forEach_ok {step : (c : C) → W → R c × W} {f : α → Script C R X Unit} {g : α → W → W}
    {as : List α} (h : ∀ a ∈ as, ∀ w w', (f a).eval step w = (.ok (), w') → w' = g a w)
    {w w' : W} (he : (forEach f as).eval step w = (.ok (), w')) :
    w' = as.foldl (fun w a => g a w) w := by
  induction as generalizing w with
  | nil => exact (congrArg Prod.snd he).symm
  | cons a as ih =>
    obtain ⟨_, w₁, h1, h2⟩ := eval_bind_ok.1 he
    obtain rfl := h a List.mem_cons_self w w₁ h1
    exact ih (fun b hb => h b (List.mem_cons_of_mem _ hb)) h2

theorem eval_bind_error {step : (c : C) → W → R c × W} {p : Script C R X α}
    {f : α → Script C R X β} {w w' : W} {x : X} :
    (p >>= f).eval step w = (.error x, w') ↔
      p.eval step w = (.error x, w') ∨
      ∃ a w₁, p.eval step w = (.ok a, w₁) ∧ (f a).eval step w₁ = (.error x, w') := by
  rw [eval_bind]
  rcases p.eval step w with ⟨a | a, w₁⟩ <;> simp

theorem cut_bind_error {step : (c : C) → W → R c × W} {p : Script C R X α}
    {f : α → Script C R X β} {w w' : W} {x : X} (h : p.eval step w = (.error x, w')) (n : Nat) :
    (p >>= f).cut step n w = p.cut step n w := by
  induction p generalizing n w with
  | ret a => cases h
  | exit x => simp
  | call c k ih =>
    cases n with
    | zero => simp
    | succ n => exact ih _ h n

/-! ## The commands a script can issue -/

/-- Every command the script can issue, whatever the answers, is in `P`. -/
def Uses (P : C → Prop) : Script C R X α → Prop
  | .ret _ => True
  | .exit _ => True
  | .call c k => P c ∧ ∀ r, (k r).Uses P

section
variable {P Q : C → Prop}

@[simp] theorem uses_ret (a : α) : (Script.ret a : Script C R X α).Uses P := trivial
@[simp] theorem uses_exit (x : X) : (Script.exit x : Script C R X α).Uses P := trivial
@[simp] theorem uses_call (c : C) (k : R c → Script C R X α) :
    (Script.call c k).Uses P ↔ P c ∧ ∀ r, (k r).Uses P := Iff.rfl

@[simp] theorem uses_sh (c : C) : (sh c : Script C R X (R c)).Uses P ↔ P c := by simp [sh]

@[simp] theorem uses_ite (b : Prop) {_ : Decidable b} (p q : Script C R X α) :
    (if b then p else q).Uses P ↔ (b → p.Uses P) ∧ (¬ b → q.Uses P) := by
  split <;> simp [*]

theorem uses_bind {p : Script C R X α} {f : α → Script C R X β} (hp : p.Uses P)
    (hf : ∀ a, (f a).Uses P) : (p >>= f).Uses P := by
  induction p with
  | ret a => exact hf a
  | exit x => trivial
  | call c k ih => exact ⟨hp.1, fun r => ih r (hp.2 r)⟩

@[simp] theorem uses_must {P : C → Prop} (c : C) (x : X) : (must c x).Uses P ↔ P c := by
  simp [must]

@[simp] theorem uses_ensure {P : C → Prop} (g c : C) (x : X) :
    (ensure g c x).Uses P ↔ P g ∧ P c := by
  simp [ensure]

theorem uses_forEach {f : α → Script C R X Unit} {as : List α} (h : ∀ a ∈ as, (f a).Uses P) :
    (forEach f as).Uses P := by
  induction as with
  | nil => trivial
  | cons a as ih =>
    exact uses_bind (h a List.mem_cons_self) fun _ => ih fun b hb => h b (List.mem_cons_of_mem _ hb)

/-- Every value the script can return is in `S`. -/
def Returns (S : α → Prop) : Script C R X α → Prop
  | .ret a => S a
  | .exit _ => True
  | .call _ k => ∀ r, (k r).Returns S

@[simp] theorem returns_ret {S : α → Prop} (a : α) :
    (Script.ret a : Script C R X α).Returns S ↔ S a := Iff.rfl
@[simp] theorem returns_exit {S : α → Prop} (x : X) :
    (Script.exit x : Script C R X α).Returns S := trivial
@[simp] theorem returns_call {S : α → Prop} (c : C) (k : R c → Script C R X α) :
    (Script.call c k).Returns S ↔ ∀ r, (k r).Returns S := Iff.rfl
@[simp] theorem returns_ite {S : α → Prop} (b : Prop) {_ : Decidable b} (p q : Script C R X α) :
    (if b then p else q).Returns S ↔ (b → p.Returns S) ∧ (¬ b → q.Returns S) := by
  split <;> simp [*]

/-- A sequence, when what follows may rely on the value returned. -/
theorem uses_bind_returns {S : α → Prop} {p : Script C R X α} {f : α → Script C R X β}
    (hp : p.Uses P) (hr : p.Returns S) (hf : ∀ a, S a → (f a).Uses P) : (p >>= f).Uses P := by
  induction p with
  | ret a => exact hf a hr
  | exit x => trivial
  | call c k ih => exact ⟨hp.1, fun r => ih r (hp.2 r) (hr r)⟩

theorem uses_true (p : Script C R X α) : p.Uses fun _ => True := by
  induction p with
  | ret a => trivial
  | exit x => trivial
  | call c k ih => exact ⟨trivial, ih⟩

theorem Uses.mono {p : Script C R X α} (hp : p.Uses P) (h : ∀ c, P c → Q c) : p.Uses Q := by
  induction p with
  | ret a => trivial
  | exit x => trivial
  | call c k ih => exact ⟨h c hp.1, fun r => ih r (hp.2 r)⟩

variable {step : (c : C) → W → R c × W} {I : W → Prop}

theorem eval_keeps {p : Script C R X α} (hp : p.Uses P)
    (hs : ∀ c, P c → ∀ w, I w → I (step c w).2) {w : W} (hw : I w) : I (p.eval step w).2 := by
  induction p generalizing w with
  | ret a => exact hw
  | exit x => exact hw
  | call c k ih => exact ih _ (hp.2 _) (hs c hp.1 w hw)

theorem cut_keeps {p : Script C R X α} (hp : p.Uses P)
    (hs : ∀ c, P c → ∀ w, I w → I (step c w).2) (n : Nat) {w : W} (hw : I w) :
    I (p.cut step n w) := by
  induction p generalizing n w with
  | ret a => simpa using hw
  | exit x => simpa using hw
  | call c k ih =>
    cases n with
    | zero => simpa using hw
    | succ n => exact ih _ (hp.2 _) n (hs c hp.1 w hw)

theorem uses_of_trace {p : Script C R X α} (hp : p.Uses P) {w : W} {q : C × W}
    (hq : q ∈ p.trace step w) : P q.1 := by
  induction p generalizing w with
  | ret a => cases hq
  | exit x => cases hq
  | call c k ih =>
    rcases List.mem_cons.1 hq with rfl | hq
    · exact hp.1
    · exact ih _ (hp.2 _) hq

/-- An observation that the first part of a sequence does not change, when the run is stopped. -/
theorem cut_bind_frame {p : Script C R X α} {f : α → Script C R X β} {γ : Type} (g : W → γ)
    (hp : p.Uses P) (hs : ∀ c, P c → ∀ w, g (step c w).2 = g w) {w w' : W} {a : α}
    (h : p.eval step w = (.ok a, w')) (n : Nat) :
    g ((p >>= f).cut step n w) = g ((f a).cut step (n - (p.trace step w).length) w') := by
  induction p generalizing n w with
  | ret a => cases h; rfl
  | exit x => cases h
  | call c k ih =>
    cases n with
    | zero =>
      -- nothing has run, and what the first part does is not observed
      have hk := eval_keeps (I := fun w₁ => g w₁ = g w) (p := Script.call c k) hp
        (fun c hc w₁ hw => (hs c hc w₁).trans hw) rfl
      rw [h] at hk
      simpa using hk.symm
    | succ n =>
      rw [call_bind, cut_call, ih _ (hp.2 _) h, trace_call, List.length_cons, Nat.add_sub_add_right]

/-- What no command of the script changes, the script does not change. -/
theorem eval_frame {p : Script C R X α} (g : W → β) (hp : p.Uses P)
    (hs : ∀ c, P c → ∀ w, g (step c w).2 = g w) (w : W) : g (p.eval step w).2 = g w :=
  eval_keeps (I := fun w' => g w' = g w) hp (fun c hc w' hw' => (hs c hc w').trans hw') rfl

end

end Script

end Shell
