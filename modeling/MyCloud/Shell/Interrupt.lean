import MyCloud.Shell.Script

/-!
# Interrupted runs

`evalKilled fatal p w`: a run whose process is killed by the first command in `fatal`.

`Resumes p`: wherever a run of `p` is cut off, a new run of `p` ends as the first one would have
ended, up to a relation on states.

* `Resumable.must`, `Resumable.ensure`: a command under `set -e`, alone or behind a guard.
* `Resumable.seq`, `Resumable.forEach`: a sequence, a loop; what comes later must keep what was done.
* `resumes_runs`: any number of runs that are cut off, and then a complete one.
-/

set_option autoImplicit false

namespace Shell

namespace Script

variable {C : Type} {R : C → Type} {X α β W : Type}

/-! ## Killed by a command -/

/-- A run that the first command in `fatal` kills, after what it does: `none` if it comes to one. -/
def evalKilled (step : (c : C) → W → R c × W) (fatal : C → Bool) :
    Script C R X α → W → Option (Except X α) × W
  | .ret a, w => (some (.ok a), w)
  | .exit x, w => (some (.error x), w)
  | .call c k, w =>
    if fatal c then (none, (step c w).2) else (k (step c w).1).evalKilled step fatal (step c w).2

section
variable {step : (c : C) → W → R c × W} {fatal : C → Bool}

@[simp] theorem evalKilled_ret (a : α) (w : W) :
    (Script.ret a : Script C R X α).evalKilled step fatal w = (some (.ok a), w) := rfl
@[simp] theorem evalKilled_exit (x : X) (w : W) :
    (Script.exit x : Script C R X α).evalKilled step fatal w = (some (.error x), w) := rfl
@[simp] theorem evalKilled_call (c : C) (k : R c → Script C R X α) (w : W) :
    (Script.call c k).evalKilled step fatal w =
      if fatal c then (none, (step c w).2)
      else (k (step c w).1).evalKilled step fatal (step c w).2 := rfl

@[simp] theorem evalKilled_ite (b : Prop) {_ : Decidable b} (p q : Script C R X α) (w : W) :
    (if b then p else q).evalKilled step fatal w =
      if b then p.evalKilled step fatal w else q.evalKilled step fatal w := by
  split <;> rfl

/-- A sequence: the second part runs if the first has returned and was not killed. -/
theorem evalKilled_bind (p : Script C R X α) (f : α → Script C R X β) (w : W) :
    (p >>= f).evalKilled step fatal w =
      match p.evalKilled step fatal w with
      | (some (.ok a), w') => (f a).evalKilled step fatal w'
      | (some (.error x), w') => (some (.error x), w')
      | (none, w') => (none, w') := by
  induction p generalizing w with
  | ret a => rfl
  | exit x => rfl
  | call c k ih =>
    rw [call_bind, evalKilled_call, evalKilled_call]
    cases fatal c with
    | true => rfl
    | false => exact ih _ _

theorem evalKilled_of_uses {p : Script C R X α} (hp : p.Uses fun c => fatal c = false) (w : W) :
    p.evalKilled step fatal w = (some (p.eval step w).1, (p.eval step w).2) := by
  induction p generalizing w with
  | ret a => rfl
  | exit x => rfl
  | call c k ih =>
    rw [evalKilled_call, if_neg (Bool.eq_false_iff.1 hp.1)]
    exact ih _ (hp.2 _) _

end

/-! ## Resumption -/

section
variable (step : (c : C) → W → R c × W) (rel : W → W → Prop)

/-- Two runs end in the same way. -/
def Same (x y : Except X α × W) : Prop := x.1 = y.1 ∧ rel x.2 y.2

/-- A run after one that was cut off ends as one from the start. -/
def Resumes (p : Script C R X α) : Prop :=
  ∀ n w, Same rel (p.eval step (p.cut step n w)) (p.eval step w)

/-- The commands in `P` do the same in states that are related. -/
def Respects (P : C → Prop) : Prop :=
  ∀ c, P c → ∀ w w', rel w w' → (step c w).1 = (step c w').1 ∧ rel (step c w).2 (step c w').2

end

section
variable {step : (c : C) → W → R c × W} {rel : W → W → Prop} {P : C → Prop}

theorem Same.trans (hrel : Equivalence rel) {x y z : Except X α × W} (h : Same rel x y)
    (h' : Same rel y z) : Same rel x z :=
  ⟨h.1.trans h'.1, hrel.trans h.2 h'.2⟩

theorem eval_congr (hs : Respects step rel P) {p : Script C R X α} (hp : p.Uses P) {w w' : W}
    (h : rel w w') : Same rel (p.eval step w) (p.eval step w') := by
  induction p generalizing w w' with
  | ret a => exact ⟨rfl, h⟩
  | exit x => exact ⟨rfl, h⟩
  | call c k ih =>
    obtain ⟨h1, h2⟩ := hs c hp.1 w w' h
    rw [eval_call, eval_call, h1]
    exact ih _ (hp.2 _) h2

/-- A run that is cut off stops in the first part of a sequence or in the second. -/
theorem cut_bind (p : Script C R X α) (f : α → Script C R X β) (n : ℕ) (w : W) :
    (p >>= f).cut step n w = p.cut step n w ∨
      ∃ a w₁ m, p.eval step w = (.ok a, w₁) ∧ (p >>= f).cut step n w = (f a).cut step m w₁ := by
  induction p generalizing n w with
  | ret a => exact .inr ⟨a, w, n, rfl, rfl⟩
  | exit x => exact .inl (by simp)
  | call c k ih =>
    cases n with
    | zero => exact .inl (by simp)
    | succ n => exact ih _ n _

/-! ## Scripts that pick up their work -/

/-- What the commands in `P` keep, and what does not tell related states apart. -/
structure Stable (step : (c : C) → W → R c × W) (rel : W → W → Prop) (P : C → Prop)
    (D : W → Prop) : Prop where
  keeps : ∀ c, P c → ∀ w, D w → D (step c w).2
  congr : ∀ w w', rel w w' → D w → D w'

/-- A script over the commands in `P` that establishes `D` and has nothing to do where `D` holds. -/
structure Resumable (step : (c : C) → W → R c × W) (rel : W → W → Prop) (P : C → Prop)
    (D : W → Prop) (p : Script C R X Unit) : Prop where
  uses : p.Uses P
  resumes : Resumes step rel p
  done : ∀ w w', p.eval step w = (.ok (), w') → D w'
  again : ∀ w, D w → ∃ w', p.eval step w = (.ok (), w') ∧ rel w' w
  stable : Stable step rel P D

theorem Stable.and {D E : W → Prop} (hD : Stable step rel P D) (hE : Stable step rel P E) :
    Stable step rel P fun w => D w ∧ E w :=
  ⟨fun c hc w h => ⟨hD.keeps c hc w h.1, hE.keeps c hc w h.2⟩,
    fun w w' hr h => ⟨hD.congr w w' hr h.1, hE.congr w w' hr h.2⟩⟩

theorem Resumable.of_iff {p : Script C R X Unit} {D E : W → Prop} (h : Resumable step rel P D p)
    (hD : ∀ w, D w ↔ E w) : Resumable step rel P E p := by
  rwa [← funext fun w => propext (hD w)]

section
variable (hrel : Equivalence rel) (hs : Respects step rel P)
include hrel

theorem Resumable.ret {D : W → Prop} (hD : ∀ w, D w) :
    Resumable step rel P D (Script.ret () : Script C R X Unit) where
  uses := uses_ret ()
  resumes n w := by
    rw [cut_ret]
    exact ⟨rfl, hrel.refl w⟩
  done _ w' _ := hD w'
  again w _ := ⟨w, rfl, hrel.refl w⟩
  stable := ⟨fun _ _ w _ => hD _, fun _ w' _ _ => hD w'⟩

include hs

/-- **A script that does nothing that is seen**, and returns. -/
theorem Resumable.unseen {p : Script C R X Unit} (hp : p.Uses P)
    (hq : p.Uses fun c => ∀ w, rel (step c w).2 w) (hok : ∀ w, (p.eval step w).1 = .ok ()) :
    Resumable step rel P (fun _ => True) p where
  uses := hp
  resumes n w := by
    have hcut : rel (p.cut step n w) w :=
      cut_keeps (I := fun w' => rel w' w) hq (fun c hc w' h => hrel.trans (hc w') h) n (hrel.refl w)
    exact eval_congr hs hp hcut
  done _ _ _ := trivial
  again w _ := by
    refine ⟨(p.eval step w).2, Prod.ext (hok w) rfl, ?_⟩
    exact eval_keeps (I := fun w' => rel w' w) hq (fun c hc w' h => hrel.trans (hc w') h)
      (hrel.refl w)
  stable := ⟨fun _ _ _ _ => trivial, fun _ _ _ _ => trivial⟩

/-- **A sequence is resumable** if its parts are: what the second part does, it does in states in
which the first part is done. -/
theorem Resumable.seq {p q : Script C R X Unit} {D E : W → Prop}
    (hp : Resumable step rel P D p) (hq : Resumable step rel P E q) :
    Resumable step rel P (fun w => D w ∧ E w) (p >>= fun _ => q) where
  uses := uses_bind hp.uses fun _ => hq.uses
  resumes n w := by
    rcases cut_bind p (fun _ => q) n w with hc | ⟨_, w₁, m, he, hc⟩
    · -- cut off in the first part
      rw [hc, eval_bind, eval_bind]
      obtain ⟨h1, h2⟩ := hp.resumes n w
      generalize p.eval step (p.cut step n w) = x at h1 h2
      generalize p.eval step w = y at h1 h2
      obtain ⟨rx, wx⟩ := x
      obtain ⟨ry, wy⟩ := y
      obtain rfl : rx = ry := h1
      cases rx with
      | error e => exact ⟨rfl, h2⟩
      | ok a => exact eval_congr hs hq.uses h2
    · -- cut off in the second part: the first one is done
      have hd : D (q.cut step m w₁) := cut_keeps hq.uses hp.stable.keeps m (hp.done w w₁ he)
      obtain ⟨w', hw', hr⟩ := hp.again _ hd
      have h₁ : (p >>= fun _ => q).eval step (q.cut step m w₁) = q.eval step w' := by
        rw [eval_bind, hw']
      have h₂ : (p >>= fun _ => q).eval step w = q.eval step w₁ := by rw [eval_bind, he]
      rw [hc, h₁, h₂]
      exact (eval_congr hs hq.uses hr).trans hrel (hq.resumes m w₁)
  done w w' h := by
    obtain ⟨_, w₁, h1, h2⟩ := eval_bind_ok.1 h
    have hk := eval_keeps hq.uses hp.stable.keeps (hp.done w w₁ h1)
    rw [h2] at hk
    exact ⟨hk, hq.done w₁ w' h2⟩
  again w h := by
    obtain ⟨w₁, h1, hr1⟩ := hp.again w h.1
    obtain ⟨w₂, h2, hr2⟩ := hq.again w₁ (hq.stable.congr w w₁ (hrel.symm hr1) h.2)
    exact ⟨w₂, eval_bind_ok.2 ⟨(), w₁, h1, h2⟩, hrel.trans hr2 hr1⟩
  stable := hp.stable.and hq.stable

/-- **A loop is resumable** if its rounds are. -/
theorem Resumable.forEach {f : α → Script C R X Unit} {D : α → W → Prop} {as : List α}
    (h : ∀ a ∈ as, Resumable step rel P (D a) (f a)) :
    Resumable step rel P (fun w => ∀ a ∈ as, D a w) (forEach f as) := by
  induction as with
  | nil => exact .ret hrel fun w a ha => by cases ha
  | cons a as ih =>
    have hr := Resumable.seq hrel hs (h a List.mem_cons_self)
      (ih fun b hb => h b (List.mem_cons_of_mem _ hb))
    simp only [List.forall_mem_cons]
    exact hr

end

end

/-! ## Commands under `set -e` -/

section
variable {step : C → W → Bool × W} {rel : W → W → Prop} {P : C → Prop} {D : W → Prop}

/-- A command that is cut off has not run or has run. -/
theorem cut_must (c : C) (x : X) (n : ℕ) (w : W) :
    (Script.must c x).cut step n w = w ∨ (Script.must c x).cut step n w = (step c w).2 := by
  cases n with
  | zero => exact .inl (cut_zero ..)
  | succ n =>
    right
    rw [Script.must, sh_bind, cut_call]
    cases (step c w).1 <;> simp

/-- Behind a guard it has run only if the guard has not passed. -/
theorem cut_ensure {g : C} (hg : ∀ w, (step g w).2 = w) (c : C) (x : X) (n : ℕ) (w : W) :
    (Script.ensure g c x).cut step n w = w ∨
      (step g w).1 = false ∧ (Script.ensure g c x).cut step n w = (step c w).2 := by
  cases n with
  | zero => exact .inl (cut_zero ..)
  | succ n =>
    have hcut : (Script.ensure g c x).cut step (n + 1) w =
        if (step g w).1 then w else (Script.must c x).cut step n w := by
      rw [Script.ensure, sh_bind, cut_call, hg w]
      split <;> simp
    rw [hcut]
    cases (step g w).1 with
    | true => exact .inl rfl
    | false => exact (cut_must c x n w).imp id fun h => ⟨rfl, h⟩

theorem eval_must_ok {c : C} {x : X} {w w' : W}
    (h : (Script.must c x).eval step w = (.ok (), w')) :
    (step c w).1 = true ∧ w' = (step c w).2 := by
  rw [eval_must] at h
  split at h
  · rename_i hr
    cases h
    exact ⟨hr, rfl⟩
  · cases h

variable (hrel : Equivalence rel)
include hrel

/-- **One command**, done by its success, that changes nothing when it fails. -/
theorem Resumable.must {c : C} (x : X) (hP : P c) (hD : Stable step rel P D)
    (hfail : ∀ w, (step c w).1 = false → (step c w).2 = w)
    (hdone : ∀ w, (step c w).1 = true → D (step c w).2)
    (hagain : ∀ w, D w → (step c w).1 = true ∧ rel (step c w).2 w) :
    Resumable step rel P D (Script.must c x) where
  uses := (uses_must c x).2 hP
  resumes n w := by
    rcases cut_must c x n w with h | h
    · rw [h]
      exact ⟨rfl, hrel.refl _⟩
    · rw [h]
      cases hr : (step c w).1 with
      | false =>
        rw [hfail w hr]
        exact ⟨rfl, hrel.refl _⟩
      | true =>
        obtain ⟨h1, h2⟩ := hagain _ (hdone w hr)
        rw [eval_must, eval_must, h1, hr]
        exact ⟨rfl, h2⟩
  done w w' h := by
    obtain ⟨hr, hw'⟩ := eval_must_ok h
    rw [hw']
    exact hdone w hr
  again w hw := by
    obtain ⟨h1, h2⟩ := hagain w hw
    exact ⟨_, by rw [eval_must, h1]; rfl, h2⟩
  stable := hD

/-- **A guarded command**: the guard finds that it is done. -/
theorem Resumable.ensure {g c : C} (x : X) (hg : P g) (hP : P c) (hD : Stable step rel P D)
    (hguard : ∀ w, (step g w).2 = w ∧ ((step g w).1 = true ↔ D w))
    (hfail : ∀ w, (step c w).1 = false → (step c w).2 = w)
    (hdone : ∀ w, (step c w).1 = true → D (step c w).2) :
    Resumable step rel P D (Script.ensure g c x) := by
  have heval : ∀ w, (Script.ensure g c x).eval step w =
      if (step g w).1 then (.ok (), w) else (Script.must c x).eval step w := by
    intro w
    rw [eval_ensure, (hguard w).1]
  refine ⟨(uses_ensure g c x).2 ⟨hg, hP⟩, fun n w => ?_, fun w w' h => ?_, fun w hw => ?_, hD⟩
  · rcases cut_ensure (fun w => (hguard w).1) c x n w with h | ⟨hn, h⟩
    · rw [h]
      exact ⟨rfl, hrel.refl _⟩
    · rw [h]
      cases hr : (step c w).1 with
      | false =>
        rw [hfail w hr]
        exact ⟨rfl, hrel.refl _⟩
      | true =>
        rw [heval, heval, if_pos ((hguard _).2.2 (hdone w hr)), hn, if_neg Bool.false_ne_true,
          eval_must, if_pos hr]
        exact ⟨rfl, hrel.refl _⟩
  · rw [heval] at h
    split at h
    · rename_i hgw
      cases h
      exact (hguard w).2.1 hgw
    · obtain ⟨hr, hw'⟩ := eval_must_ok h
      rw [hw']
      exact hdone w hr
  · refine ⟨w, ?_, hrel.refl w⟩
    rw [heval, if_pos ((hguard w).2.2 hw)]

end

/-! ## Many runs -/

section
variable {step : (c : C) → W → R c × W} {rel : W → W → Prop} {P : C → Prop}

/-- The state after runs that were cut off, each after the given number of commands. -/
def cuts (step : (c : C) → W → R c × W) (p : Script C R X α) (ns : List ℕ) (w : W) : W :=
  ns.foldl (fun w n => p.cut step n w) w

/-- **Any number of runs may be cut off**: a complete one ends as the first would have ended. -/
theorem resumes_runs (hrel : Equivalence rel) {p : Script C R X α} (hp : Resumes step rel p)
    (ns : List ℕ) (w : W) : Same rel (p.eval step (p.cuts step ns w)) (p.eval step w) := by
  induction ns generalizing w with
  | nil => exact ⟨rfl, hrel.refl _⟩
  | cons n ns ih => exact (ih (p.cut step n w)).trans hrel (hp n w)

/-- What the commands keep, runs that are cut off keep. -/
theorem cuts_keeps {I : W → Prop} {p : Script C R X α} (hp : p.Uses P)
    (hs : ∀ c, P c → ∀ w, I w → I (step c w).2) (ns : List ℕ) {w : W} (hw : I w) :
    I (p.cuts step ns w) := by
  induction ns generalizing w with
  | nil => exact hw
  | cons n ns ih => exact ih (cut_keeps hp hs n hw)

/-- A complete run after a complete run is a run after one that was cut off late. -/
theorem resumes_again {p : Script C R X α} (hp : Resumes step rel p) (w : W) :
    Same rel (p.eval step (p.eval step w).2) (p.eval step w) := by
  obtain ⟨n, hn⟩ := cut_eq_eval step p w
  have h := hp n w
  rwa [hn n (Nat.le_refl n)] at h

end

end Script

end Shell
