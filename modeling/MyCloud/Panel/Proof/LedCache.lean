import MyCloud.Cgi.Proof.Dashboard
import MyCloud.Shell.Interrupt

/-!
# The state file of the LED

`led-status` and `panel-op` share `/var/run/nas-led.state`: a color it contains is not written to the
driver again. A run here is a list of processes, each with its health inputs and its faults.

* `after_led`: what a process does to the LED, as one function on `Led` (`LedStep.sets`).
* `sets_honest_iff`: when it leaves a state file that agrees with the LED.
* `led_cache_iff`: the file agrees in every state of a run, and the LED shows what `led-status`
  computes, iff every process of the run is `Safe`.
-/

set_option autoImplicit false

namespace Panel

open Shell Script Cgi

/-! ## Processes -/

/-- The programs that set the LED: the cron job and three verbs of `panel-op`. -/
inductive LedProgram
  | ledStatus
  | led (args : List Bytes)
  | poweroff
  | reboot
  deriving DecidableEq

/-- A process: what it reads of the health of the box, and how its writes to the driver end. -/
structure LedStep where
  program : LedProgram
  probe : Probe → Option Bytes
  pcent : Bytes → Bytes
  /-- The driver rejects the color. -/
  rejects : Bool
  /-- The write of the brightness kills the process. -/
  oops : Bool
  /-- The write of the brightness reaches the attribute. -/
  bright : Bool

namespace LedStep

def env (s : LedStep) : StatusEnv where
  op := {
    outcome := fun c => match c with
      | .ledColor _ => if s.rejects then .fail 0 else .ok
      | .ledBrightness => if s.bright then .ok else .fail 0
      | _ => .ok
    probe := s.probe }
  pcent := s.pcent

def fatal (s : LedStep) (c : Cmd) : Bool := s.oops && decide (c = .ledBrightness)

def fatalStatus (s : LedStep) : StatusCmd → Bool
  | .op c => s.fatal c
  | .pcent _ => false

/-- The state the process leaves behind, killed or not. -/
def after (s : LedStep) (w : World) : World :=
  match s.program with
  | .ledStatus => (led_status.evalKilled (StatusCmd.exec s.env) s.fatalStatus w).2
  | .led args => ((Panel.led args).evalKilled (exec s.env.op) s.fatal w).2
  | .poweroff => (Panel.poweroff.evalKilled (exec s.env.op) s.fatal w).2
  | .reboot => (Panel.reboot.evalKilled (exec s.env.op) s.fatal w).2

end LedStep

/-- Processes one after another. -/
def runLed (w : World) (steps : List LedStep) : World := steps.foldl (fun w s => s.after w) w

/-- `/var/run` is empty after boot. -/
def World.boot (w : World) : World := { w with led := { w.led with cache := none } }

/-- The state file contains the color of the LED, or is missing. -/
def Led.Honest (l : Led) : Prop := ∀ c, l.cache = some c → l.color = c

/-! ## The effect on the LED -/

namespace LedStep

/-- The color that the process sets: for `led-status` the one it computes. -/
def wants (s : LedStep) : Option Bytes :=
  match s.program with
  | .ledStatus => some (
      if saysFailed (shows s.env.op .smartHealth) = true then red
      else if degraded (shows s.env.op .mdstat) = true then red else softState s.env)
  | .led args => if arg args 0 ∈ ledColors then some (arg args 0) else none
  | .poweroff | .reboot => some yellow

def colors (s : LedStep) (c : Bytes) (l : Led) : Led := if s.rejects then l else { l with color := c }

def lights (s : LedStep) (l : Led) : Led :=
  if s.bright then { l with brightness := bytes "255" } else l

/-- From the brightness on; a process that is killed leaves the state file as it is. -/
def finish (s : LedStep) (c : Bytes) (l : Led) : Led :=
  if l.brightness ≠ bytes "255" then
    if s.oops then s.lights l else { s.lights l with cache := some c }
  else { l with cache := some c }

/-- `set_led c` and `led_set c`: only the second one stops at a color that is rejected. -/
def sets (s : LedStep) (c : Bytes) (l : Led) : Led :=
  if l.cache.getD [] = c then l
  else if s.rejects = true ∧ s.program ≠ .ledStatus then l
  else s.finish c (s.colors c l)

section
variable (s : LedStep) (w : World)

theorem ok_ledColor (c : Bytes) : s.env.op.ok (.ledColor c) = !s.rejects := by
  simp only [Env.ok, env]
  split <;> simp [*]

theorem ok_ledBrightness : s.env.op.ok .ledBrightness = s.bright := by
  simp only [Env.ok, env]
  split <;> simp [*]

theorem exec_ledColor (c : Bytes) : exec s.env.op (.ledColor c) w =
    (!s.rejects, { w with led := s.colors c w.led }) := by
  change (if s.env.op.ok (.ledColor c) then
    (true, { w with led := { w.led with color := c } }) else (false, w)) = _
  rw [ok_ledColor, colors]
  cases s.rejects <;> rfl

theorem exec_ledBrightness : exec s.env.op .ledBrightness w =
    ((), { w with led := s.lights w.led }) := by
  change ((), if s.env.op.ok .ledBrightness then
    { w with led := { w.led with brightness := bytes "255" } } else w) = _
  rw [ok_ledBrightness, lights]
  cases s.bright <;> rfl

theorem fatal_ledBrightness : s.fatal .ledBrightness = s.oops := by simp [fatal]

theorem fatal_other {c : Cmd} (hc : c ≠ .ledBrightness) : s.fatal c = false := by simp [fatal, hc]

/-- The last part of both functions, after the write of the color; whatever they return. -/
theorem finish_led (c : Bytes) (l : Led) (r₁ r₂ r₃ : Option (Except Bytes Unit)) :
    (if (exec s.env.op .ledGetBrightness { w with led := l }).1 ≠ bytes "255" then
        if s.oops = true then (r₁, (exec s.env.op .ledBrightness { w with led := l }).2)
        else (r₂, (exec s.env.op (.ledCache c)
          (exec s.env.op .ledBrightness { w with led := l }).2).2)
      else (r₃, (exec s.env.op (.ledCache c) { w with led := l }).2)).2.led = s.finish c l := by
  have hl : (exec s.env.op .ledBrightness { w with led := l }).2.led = s.lights l :=
    congrArg (fun x => x.2.led) (s.exec_ledBrightness _)
  unfold finish
  split
  · rename_i hb
    rw [if_pos (show l.brightness ≠ bytes "255" from hb)]
    split
    · exact hl
    · exact congrArg (fun l : Led => { l with cache := some c }) hl
  · rename_i hb
    rw [if_neg (show ¬ l.brightness ≠ bytes "255" from hb)]
    rfl

theorem set_led_led (c : Bytes) (hs : s.program = .ledStatus) :
    ((set_led c).evalKilled (StatusCmd.exec s.env) s.fatalStatus w).2.led = s.sets c w.led := by
  have hf := fun c (hc : c ≠ Cmd.ledBrightness) => s.fatal_other hc
  simp only [set_led, op, sh_bind, evalKilled_call, evalKilled_ite]
  simp only [sh, evalKilled_call, pure_eq_ret, evalKilled_ret, fatalStatus, fatal_ledBrightness,
    hf .ledCacheGet (by decide), hf (.ledColor c) (by simp), hf .ledGetBrightness (by decide),
    hf .sleep (by decide), hf (.ledCache c) (by simp), Bool.false_eq_true, if_false]
  by_cases hk : w.led.cache.getD [] = c
  · rw [if_pos (show (StatusCmd.exec s.env (.op .ledCacheGet) w).1 = c from hk), sets, if_pos hk]
    rfl
  have hsets : s.sets c w.led = s.finish c (s.colors c w.led) := by
    rw [sets, if_neg hk, if_neg fun h => h.2 hs]
  rw [if_neg (show ¬ (StatusCmd.exec s.env (.op .ledCacheGet) w).1 = c from hk), hsets]
  have h1 : (StatusCmd.exec s.env (.op (.ledColor c)) (StatusCmd.exec s.env (.op .ledCacheGet) w).2).2
      = { w with led := s.colors c w.led } := congrArg Prod.snd (s.exec_ledColor w c)
  rw [h1]
  exact s.finish_led w c _ _ _ _

theorem led_set_led {c : Bytes} (hc : c ∈ ledColors) (hs : s.program ≠ .ledStatus) :
    ((led_set c).evalKilled (exec s.env.op) s.fatal w).2.led = s.sets c w.led := by
  have hf := fun c (hc : c ≠ Cmd.ledBrightness) => s.fatal_other hc
  simp only [led_set, if_pos hc, sh_bind, exit_bind, evalKilled_call, evalKilled_ite]
  simp only [sh, evalKilled_call, pure_eq_ret, evalKilled_ret, evalKilled_exit,
    fatal_ledBrightness, hf .ledCacheGet (by decide), hf (.ledColor c) (by simp),
    hf .ledGetBrightness (by decide), hf .sleep (by decide), hf (.ledCache c) (by simp),
    Bool.false_eq_true, if_false]
  by_cases hk : w.led.cache.getD [] = c
  · rw [if_pos (show (exec s.env.op .ledCacheGet w).1 = c from hk), sets, if_pos hk]
    rfl
  rw [if_neg (show ¬ (exec s.env.op .ledCacheGet w).1 = c from hk), sets, if_neg hk]
  have h1 : exec s.env.op (.ledColor c) (exec s.env.op .ledCacheGet w).2 =
      (!s.rejects, { w with led := s.colors c w.led }) := s.exec_ledColor w c
  rw [h1]
  cases hr : s.rejects with
  | true =>
    rw [if_neg (show ¬ (!true) = true by decide), if_pos ⟨rfl, hs⟩]
    simp [colors, hr]
  | false =>
    have hn : ¬ (false = true ∧ s.program ≠ .ledStatus) := fun h => Bool.false_ne_true h.1
    rw [if_pos (show (!false) = true from rfl), if_neg hn]
    exact s.finish_led w c _ _ _ _

theorem serviceState_fatal (ss : List Bytes) (state : Bytes) :
    (serviceState ss state).Uses fun c => s.fatalStatus c = false := by
  induction ss generalizing state with
  | nil => trivial
  | cons p ps ih =>
    simp only [serviceState, op, sh_bind, uses_call, uses_ite]
    exact ⟨s.fatal_other (by simp), fun _ => ⟨fun _ => ih _, fun _ => ih _⟩⟩

theorem diskState_fatal (ms : List Bytes) (state : Bytes) :
    (diskState ms state).Uses fun c => s.fatalStatus c = false := by
  induction ms generalizing state with
  | nil => trivial
  | cons m ms ih =>
    simp only [diskState, sh_bind, uses_call, uses_ite]
    exact ⟨rfl, fun _ => ⟨fun _ => ih _, fun _ => ih _⟩⟩

theorem health_fatal : health.Uses fun c => s.fatalStatus c = false := by
  refine uses_bind (s.serviceState_fatal _ _) fun _ => ?_
  refine uses_bind (s.diskState_fatal _ _) fun _ => ?_
  simp only [op, sh_bind, uses_call]
  exact ⟨s.fatal_other (by simp), fun _ => ⟨s.fatal_other (by simp), fun _ => trivial⟩⟩

theorem shutdown_led (flag : Bytes) : (exec s.env.op (.shutdown flag) w).2.led = w.led := by
  simp only [exec]
  split <;> rfl

/-- A script whose rest does not touch the LED. -/
theorem bind_led {α β : Type} {p : Op α} {f : α → Op β}
    (hf : ∀ a w, ((f a).evalKilled (exec s.env.op) s.fatal w).2.led = w.led) :
    ((p >>= f).evalKilled (exec s.env.op) s.fatal w).2.led =
      (p.evalKilled (exec s.env.op) s.fatal w).2.led := by
  rw [evalKilled_bind]
  rcases p.evalKilled (exec s.env.op) s.fatal w with ⟨_ | _ | a, w'⟩
  · rfl
  · rfl
  · exact hf a w'

/-- The actions that take the box down: yellow, then `shutdown`. -/
theorem going_down_led (hs : s.program ≠ .ledStatus) (flag m : Bytes) :
    ((led_set yellow >>= fun _ => run (.shutdown flag) >>= fun _ => pure m).evalKilled
      (exec s.env.op) s.fatal w).2.led = s.sets yellow w.led := by
  rw [bind_led s w fun _ w' => ?_]
  · exact s.led_set_led w (by decide) hs
  · simp only [sh_bind, evalKilled_call, s.fatal_other (show Cmd.shutdown flag ≠ _ by simp)]
    exact s.shutdown_led w' _

/-- **What a process does to the LED.** -/
theorem after_led : (s.after w).led =
    match s.wants with
    | some c => s.sets c w.led
    | none => w.led := by
  unfold after wants
  cases hs : s.program with
  | ledStatus =>
    simp only [led_status]
    rw [evalKilled_bind, evalKilled_of_uses s.health_fatal, health_eval]
    exact s.set_led_led w _ hs
  | led args =>
    have hne : s.program ≠ .ledStatus := by simp [hs]
    simp only [Panel.led]
    rw [bind_led s w fun _ _ => rfl]
    by_cases hc : arg args 0 ∈ ledColors
    · simp only [if_pos hc]
      exact s.led_set_led w hc hne
    · simp only [if_neg hc, led_set, exit_bind, evalKilled_exit]
  | poweroff =>
    exact s.going_down_led w (by simp [hs]) _ _
  | reboot =>
    exact s.going_down_led w (by simp [hs]) _ _

end

/-! ## Agreement -/

/-- The process is killed if it comes to the brightness. -/
def Dies (s : LedStep) (l : Led) : Prop := s.oops = true ∧ l.brightness ≠ bytes "255"

/-- What must not happen when another color than the one in the state file is set: that the color is
taken, the process dies, and there is a state file; or that `led-status` goes on after a color that
was rejected, and the LED does not have it. -/
def Safe (s : LedStep) (l : Led) : Prop :=
  ∀ c, s.wants = some c → l.cache ≠ some c →
    (s.rejects = false → s.Dies l → l.cache = none) ∧
    (s.rejects = true → s.program = .ledStatus → ¬ s.Dies l → l.color = c)

/-- No write of the process fails or kills it. -/
def Works (s : LedStep) (l : Led) : Prop :=
  ∀ c, s.wants = some c → l.cache ≠ some c → s.rejects = false ∧ s.bright = true ∧ ¬ s.Dies l

section
variable {s : LedStep} {l : Led}

theorem wants_ne_nil {c : Bytes} (h : s.wants = some c) : c ≠ [] := by
  have hcolors : ∀ c ∈ ledColors, c ≠ [] := by decide
  unfold wants at h
  split at h
  · cases h
    split_ifs
    · decide
    · decide
    · unfold softState
      split_ifs <;> decide
  · split at h
    · rename_i hc
      cases h
      exact hcolors _ hc
    · cases h
  · cases h
    decide
  · cases h
    decide

/-- The state file has the color. -/
theorem cached_iff {c : Bytes} (hc : c ≠ []) : l.cache.getD [] = c ↔ l.cache = some c := by
  cases hl : l.cache with
  | none => simpa using hc.symm
  | some d => simp

theorem lights_eq : (s.lights l).color = l.color ∧ (s.lights l).cache = l.cache := by
  unfold lights
  split <;> exact ⟨rfl, rfl⟩

theorem finish_dies {c : Bytes} (h : s.Dies l) :
    (s.finish c l).color = l.color ∧ (s.finish c l).cache = l.cache := by
  rw [finish, if_pos h.2, if_pos h.1]
  exact lights_eq

theorem finish_lives {c : Bytes} (h : ¬ s.Dies l) :
    (s.finish c l).color = l.color ∧ (s.finish c l).cache = some c := by
  unfold finish
  split
  · rename_i hb
    rw [if_neg fun ho => h ⟨ho, hb⟩]
    exact ⟨lights_eq.1, rfl⟩
  · exact ⟨rfl, rfl⟩

/-- After a color that was taken the file agrees, unless the process dies with the old one in it. -/
theorem finish_taken_iff {c : Bytes} (hk : l.cache ≠ some c) :
    (s.finish c { l with color := c }).Honest ↔ (s.Dies l → l.cache = none) := by
  by_cases hd : s.Dies l
  · obtain ⟨h1, h2⟩ := finish_dies (c := c) (l := { l with color := c }) hd
    simp only [Led.Honest, h1, h2, hd, true_imp_iff]
    refine ⟨fun h => ?_, fun h d hd => by simp [h] at hd⟩
    cases hc : l.cache with
    | none => rfl
    | some d => exact absurd (h d hc ▸ hc) hk
  · obtain ⟨h1, h2⟩ := finish_lives (c := c) (l := { l with color := c }) hd
    simp only [Led.Honest, h1, h2, hd, false_imp_iff, iff_true, Option.some.injEq]
    exact fun d hd => hd

/-- After a color that was rejected, when the process goes on. -/
theorem finish_rejected_iff {c : Bytes} (hl : l.Honest) :
    (s.finish c l).Honest ↔ (¬ s.Dies l → l.color = c) := by
  by_cases hd : s.Dies l
  · obtain ⟨h1, h2⟩ := finish_dies (c := c) hd
    simp only [Led.Honest, h1, h2, hd, not_true_eq_false, false_imp_iff, iff_true]
    exact hl
  · obtain ⟨h1, h2⟩ := finish_lives (c := c) hd
    simp only [Led.Honest, h1, h2, hd, not_false_eq_true, true_imp_iff, Option.some.injEq]
    exact ⟨fun h => h c rfl, fun h d hd => hd ▸ h⟩

/-- **A process leaves a file that agrees just when it is safe.** -/
theorem sets_honest_iff {c : Bytes} (hw : s.wants = some c) (hl : l.Honest) :
    (s.sets c l).Honest ↔ s.Safe l := by
  have hsafe : s.Safe l ↔ (l.cache ≠ some c →
      (s.rejects = false → s.Dies l → l.cache = none) ∧
      (s.rejects = true → s.program = .ledStatus → ¬ s.Dies l → l.color = c)) := by
    refine ⟨fun h => h c hw, fun h d hd => ?_⟩
    obtain rfl := Option.some.inj (hw.symm.trans hd)
    exact h
  rw [hsafe]
  unfold sets
  by_cases hk : l.cache = some c
  · rw [if_pos ((cached_iff (wants_ne_nil hw)).2 hk)]
    exact iff_of_true hl fun h => absurd hk h
  rw [if_neg fun h => hk ((cached_iff (wants_ne_nil hw)).1 h)]
  simp only [ne_eq, hk, not_false_eq_true, true_imp_iff]
  cases hr : s.rejects with
  | false =>
    have hc : s.colors c l = { l with color := c } := by simp [colors, hr]
    rw [if_neg fun h => Bool.false_ne_true h.1, hc, finish_taken_iff hk]
    simp
  | true =>
    have hc : s.colors c l = l := by simp [colors, hr]
    by_cases hp : s.program = .ledStatus
    · rw [if_neg fun h => h.2 hp, hc, finish_rejected_iff hl]
      simp [hp]
    · rw [if_pos ⟨rfl, hp⟩]
      exact iff_of_true hl ⟨fun h => Bool.noConfusion h, fun _ h => absurd h hp⟩

/-- A run of `led-status` whose writes all work shows the color it computes. -/
theorem sets_color {c : Bytes} (hw : s.wants = some c) (hl : l.Honest) (hs : s.Works l) :
    (s.sets c l).color = c := by
  unfold sets
  by_cases hk : l.cache = some c
  · rw [if_pos ((cached_iff (wants_ne_nil hw)).2 hk)]
    exact hl c hk
  obtain ⟨hr, -, hd⟩ := hs c hw hk
  have hc : s.colors c l = { l with color := c } := by simp [colors, hr]
  rw [if_neg fun h => hk ((cached_iff (wants_ne_nil hw)).1 h),
    if_neg fun h => Bool.false_ne_true (hr.symm.trans h.1), hc]
  exact (finish_lives (l := { l with color := c }) hd).1

end

/-- The step lemma: from a file that agrees. -/
theorem after_honest_iff {s : LedStep} {w : World} (hl : w.led.Honest) :
    (s.after w).led.Honest ↔ s.Safe w.led := by
  rw [after_led]
  cases hw : s.wants with
  | none => exact iff_of_true hl fun c hc => by simp [hw] at hc
  | some c => exact sets_honest_iff hw hl

end LedStep

/-! ## Runs -/

theorem boot_honest (w : World) : w.boot.led.Honest := fun _ h => by cases h

/-- An invariant holds in every state of a run iff each step is good where it is taken. -/
theorem foldl_invariant_iff {σ τ : Type} {f : σ → τ → σ} (I : σ → Prop) (Good : τ → σ → Prop)
    (hstep : ∀ a s, I a → (I (f a s) ↔ Good s a)) {a : σ} (h0 : I a) (ss : List τ) :
    (∀ pre post, ss = pre ++ post → I (pre.foldl f a)) ↔
      ∀ pre s post, ss = pre ++ s :: post → Good s (pre.foldl f a) := by
  constructor
  · intro h pre s post he
    rw [← hstep _ s (h pre _ he)]
    have := h (pre ++ [s]) post (by simp [he])
    rwa [List.foldl_append] at this
  · intro h pre
    induction pre using List.reverseRecOn with
    | nil => exact fun _ _ => h0
    | append_singleton pre s ih =>
      intro post he
      have he' : ss = pre ++ s :: post := by simp [he]
      rw [List.foldl_append]
      exact (hstep _ s (ih _ he')).2 (h pre s post he')

/-- **The state file never lies, and `led-status` shows what it computes, iff** every process of the run
is safe where it runs. -/
theorem led_cache_iff (w : World) (steps : List LedStep) :
    ((∀ pre post, steps = pre ++ post → (runLed w.boot pre).led.Honest) ∧
      ∀ pre s post c, steps = pre ++ s :: post → s.program = .ledStatus →
        s.Works (runLed w.boot pre).led →
        (health.eval (StatusCmd.exec s.env) (runLed w.boot pre)).1 = .ok c →
        (runLed w.boot (pre ++ [s])).led.color = c) ↔
      ∀ pre s post, steps = pre ++ s :: post → s.Safe (runLed w.boot pre).led := by
  have hinv : (∀ pre post, steps = pre ++ post → (runLed w.boot pre).led.Honest) ↔
      ∀ pre s post, steps = pre ++ s :: post → s.Safe (runLed w.boot pre).led :=
    foldl_invariant_iff (fun w : World => w.led.Honest) (fun (s : LedStep) w => s.Safe w.led)
      (fun _ _ => LedStep.after_honest_iff) (boot_honest w) steps
  rw [← hinv]
  refine ⟨fun h => h.1, fun h => ⟨h, fun pre s post c he hp hs hc => ?_⟩⟩
  have hl := h pre _ he
  have hstep : runLed w.boot (pre ++ [s]) = s.after (runLed w.boot pre) := by
    rw [runLed, List.foldl_append]
    rfl
  have hw : s.wants = some c := by
    rw [health_eval] at hc
    rw [LedStep.wants, hp]
    exact congrArg some (Except.ok.inj hc)
  rw [hstep, LedStep.after_led, hw]
  exact LedStep.sets_color hw hl hs

/-! ## A lie -/

/-- `led-status`, with both services up, filesystems of which little is used, and this `/proc/mdstat`. -/
def cronStep (mdstat : Bytes) (rejects : Bool) : LedStep where
  program := .ledStatus
  probe p := match p with
    | .pidof _ => some (bytes "123")
    | .mdstat => some mdstat
    | .smartHealth => some passed
    | _ => none
  pcent _ := bytes "Use%\n 12%\n"
  rejects := rejects
  oops := false
  bright := true

/-- The driver rejects red when the array degrades, and the state file says red while the LED is blue.
The next run, in which every write would work, computes red and writes nothing. -/
theorem blue_on_degraded :
    let w := runLed (stage3World ∅).boot [cronStep inSync false, cronStep secondMissing true]
    let s := cronStep secondMissing false
    ¬ w.led.Honest ∧ s.Works w.led ∧ (health.eval (StatusCmd.exec s.env) w).1 = .ok red ∧
      (s.after w).led.color = blue := by
  intro w s
  have hw : w.led = ⟨blue, bytes "255", some red⟩ := by decide +kernel
  have hwants : s.wants = some red := by decide +kernel
  refine ⟨fun h => ?_, fun c hc hne => ?_, by decide +kernel, by decide +kernel⟩
  · have hb : blue = red := by
      have := h red (by rw [hw])
      rwa [hw] at this
    revert hb
    decide
  · rw [hw] at hne
    exact absurd (hwants.symm.trans hc) hne

end Panel
