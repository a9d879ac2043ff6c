import MyCloud.Cgi.Pages
import MyCloud.Cgi.Proof.Form
import MyCloud.Panel.Proof.Runs
import MyCloud.Panel.Stage3

/-!
# Steps that may fail

`led_set ... || true` in `poweroff` and `reboot`, `share_del_block ... || true` in `user-del`: the
`|| true` contains a status, and a `die` inside the helper leaves the whole script.

* `led_set_returns`, `share_del_block_returns`: when the helper comes back to the verb.
* `goesOn_iff`: the verb goes on exactly then.
* `shown_iff`: the page of a shutdown is true exactly then.
-/

set_option autoImplicit false

namespace Cgi

open Shell Script Panel

variable {e : Env} {w : World}

/-! ## The helpers -/

/-- The state file has the color already, or the driver takes it. -/
def LedTakes (e : Env) (color : Bytes) (w : World) : Prop :=
  (exec e .ledCacheGet w).1 = color ∨ e.ok (.ledColor color) = true

/-- No line of smb.conf starts with `[u]`, or there is a temporary file and `testparm` accepts. -/
def BlockGoes (e : Env) (u : Bytes) (w : World) : Prop :=
  e.greps .delBlock u w.smb = true →
    e.ok .mktemp = true ∧ e.ok (.testparm (delTmp e u w.smb)) = true

theorem led_set_returns {color : Bytes} (hc : color ∈ ledColors) :
    (∃ w', (led_set color).eval (exec e) w = (.ok (), w')) ↔ LedTakes e color w := by
  have hcolor : (exec e (.ledColor color) w).1 = e.ok (.ledColor color) := by
    simp only [exec]
    split <;> simp_all
  simp only [led_set, hc, if_true, sh_bind, exit_bind, eval_call, eval_ite, pure_eq_ret, eval_ret,
    eval_exit]
  unfold LedTakes
  split
  · rename_i hk
    exact ⟨fun _ => .inl hk, fun _ => ⟨_, rfl⟩⟩
  rename_i hk
  rw [show (exec e .ledCacheGet w).2 = w from rfl, hcolor]
  split
  · rename_i hd
    refine ⟨fun _ => .inr hd, fun _ => ?_⟩
    split <;> exact ⟨_, rfl⟩
  · rename_i hd
    refine ⟨fun h => ?_, fun h => absurd h (not_or.2 ⟨hk, hd⟩)⟩
    obtain ⟨_, h⟩ := h
    cases h

theorem share_del_block_returns (u : Bytes) :
    (∃ b w', (share_del_block u).eval (exec e) w = (.ok b, w')) ↔ BlockGoes e u w := by
  unfold BlockGoes
  constructor
  · rintro ⟨b, w', h⟩ hg
    rcases share_del_block_ok.1 h with ⟨-, -, hm, ht, -⟩ | ⟨-, hn, -⟩
    · exact ⟨hm, ht⟩
    · rw [hg] at hn
      cases hn
  · intro h
    cases hg : e.greps .delBlock u w.smb with
    | false => exact ⟨_, _, share_del_block_ok.2 (.inr ⟨rfl, hg, rfl⟩)⟩
    | true => exact ⟨_, _, share_del_block_ok.2 (.inl ⟨rfl, hg, (h hg).1, (h hg).2, rfl⟩)⟩

/-! ## The verbs -/

/-- The step after the one with `|| true` is run: the shutdown is scheduled; once the block of the
user's share is dealt with, the unix account is looked up and, if there is one, deleted. -/
def GoesOn (e : Env) (c : Call) (w : World) : Prop :=
  match c.verb with
  | .poweroff => c.Issues e w (.shutdown (bytes "-h"))
  | .reboot => c.Issues e w (.shutdown (bytes "-r"))
  | .userDel => c.Issues e w (.grepHeader .delBlock c.name) →
      ∃ w', (.id c.name, w') ∈ c.trace e w ∧
        ((exec e (.id c.name) w').1 = true → c.Issues e w (.deluser c.name))
  | _ => True

/-- The helper comes back, in the terms of its commands. -/
def HelperReturns (e : Env) (c : Call) (w : World) : Prop :=
  match c.verb with
  | .poweroff | .reboot => LedTakes e (bytes "yellow") w
  | .userDel => nameRe c.name = true → c.name ∉ PROTECTED_USERS → BlockGoes e c.name w
  | _ => True

theorem yellow_color : bytes "yellow" ∈ ledColors := by decide

/-- The script of `poweroff` and of `reboot`. -/
theorem shutdown_iff (flag msg : Bytes) :
    (∃ w', (Cmd.shutdown flag, w') ∈ (led_set (bytes "yellow") >>= fun _ =>
      Script.sh (.shutdown flag) >>= fun _ => (pure msg : Op Bytes)).trace (exec e) w) ↔
    LedTakes e (bytes "yellow") w := by
  have hled : ∀ w', (Cmd.shutdown flag, w') ∉ (led_set (bytes "yellow")).trace (exec e) w := by
    intro w' h
    have huses : (led_set (bytes "yellow")).Uses (· ≠ Cmd.shutdown flag) := by
      simp [led_set, yellow_color]
    exact uses_of_trace huses h rfl
  rw [← led_set_returns yellow_color]
  constructor
  · rintro ⟨w', h⟩
    obtain ⟨_, w₁, h, -⟩ := (mem_trace_bind.1 h).resolve_left (hled w')
    exact ⟨w₁, h⟩
  · rintro ⟨w₁, h⟩
    exact ⟨w₁, mem_trace_bind.2 (.inr ⟨(), w₁, h, by simp⟩)⟩

/-- `user-del` with a name it refuses runs no command. -/
theorem user_del_refused {args : List Bytes}
    (h : ¬ (nameRe (arg args 0) = true ∧ arg args 0 ∉ PROTECTED_USERS)) :
    (user_del args).trace (exec e) w = [] := by
  unfold user_del need_name
  by_cases hn : nameRe (arg args 0) = true
  · have hp : arg args 0 ∈ PROTECTED_USERS := by simpa [hn] using h
    simp [hn, hp, die]
  · simp [hn]

/-- The part of `user-del` from `share_del_block` on. -/
def delRest (u msg : Bytes) : Op Bytes := do
  let _ ← share_del_block u
  user_del_account u
  return msg

theorem user_del_trace {args : List Bytes} (hn : nameRe (arg args 0) = true)
    (hp : arg args 0 ∉ PROTECTED_USERS) : ∃ msg,
    (user_del args).trace (exec e) w = (user_del_smb (arg args 0)).trace (exec e) w ++
      (delRest (arg args 0) msg).trace (exec e) (smbDeleted e (arg args 0) w) := by
  refine ⟨bytes "OK: user " ++ arg args 0 ++ bytes " removed (their files under /srv/nas are kept)",
    ?_⟩
  simp only [user_del, need_name, hn, if_true, hp, if_false, pure_eq_ret, ret_bind]
  rw [trace_bind, user_del_smb_eval]
  rfl

theorem delRest_iff (u msg : Bytes) :
    (∃ w', (Cmd.id u, w') ∈ (delRest u msg).trace (exec e) w ∧
      ((exec e (.id u) w').1 = true →
        ∃ w₂, (Cmd.deluser u, w₂) ∈ (delRest u msg).trace (exec e) w)) ↔
    BlockGoes e u w := by
  have huses : (share_del_block u).Uses (· ≠ Cmd.id u) := by simp [share_del_block, die]
  rw [← share_del_block_returns]
  constructor
  · rintro ⟨w', h, -⟩
    obtain ⟨b, w₁, hb, -⟩ := (mem_trace_bind.1 h).resolve_left fun h => uses_of_trace huses h rfl
    exact ⟨b, w₁, hb⟩
  · rintro ⟨b, w₁, hb⟩
    refine ⟨w₁, mem_trace_bind.2 (.inr ⟨b, w₁, hb, ?_⟩), fun hid => ⟨w₁, ?_⟩⟩
    · simp [user_del_account]
    · refine mem_trace_bind.2 (.inr ⟨b, w₁, hb, ?_⟩)
      rw [exec_id] at hid
      simp [user_del_account, hid]

theorem blockGoes_smbDeleted (u : Bytes) :
    BlockGoes e u (smbDeleted e u w) ↔ BlockGoes e u w := by
  unfold BlockGoes
  rw [smbDeleted_smb]

/-- **A verb goes on exactly when its helper comes back.** -/
theorem goesOn_iff (e : Env) (c : Call) (w : World) : GoesOn e c w ↔ HelperReturns e c w := by
  obtain ⟨v, args, stdin⟩ := c
  cases v with
  | poweroff => exact shutdown_iff (bytes "-h") (bytes "OK: halting")
  | reboot => exact shutdown_iff (bytes "-r") (bytes "OK: rebooting")
  | userDel =>
    change ((∃ w', (Cmd.grepHeader .delBlock (arg args 0), w') ∈ (user_del args).trace (exec e) w) →
        ∃ w', (Cmd.id (arg args 0), w') ∈ (user_del args).trace (exec e) w ∧
          ((exec e (.id (arg args 0)) w').1 = true →
            ∃ w₂, (Cmd.deluser (arg args 0), w₂) ∈ (user_del args).trace (exec e) w)) ↔
      (nameRe (arg args 0) = true → arg args 0 ∉ PROTECTED_USERS → BlockGoes e (arg args 0) w)
    by_cases h : nameRe (arg args 0) = true ∧ arg args 0 ∉ PROTECTED_USERS
    swap
    · rw [user_del_refused h]
      exact ⟨fun _ hn hp => absurd ⟨hn, hp⟩ h, fun _ ⟨_, hm⟩ => nomatch hm⟩
    obtain ⟨hn, hp⟩ := h
    obtain ⟨msg, htr⟩ := user_del_trace (e := e) (w := w) hn hp
    have hid : ∀ w', (Cmd.id (arg args 0), w') ∉ (user_del_smb (arg args 0)).trace (exec e) w :=
      fun w' hm => uses_of_trace (P := (· ≠ Cmd.id (arg args 0))) (by simp [user_del_smb]) hm rfl
    have hdel : ∀ w', (Cmd.deluser (arg args 0), w') ∉
        (user_del_smb (arg args 0)).trace (exec e) w :=
      fun w' hm => uses_of_trace (P := (· ≠ Cmd.deluser (arg args 0))) (by simp [user_del_smb]) hm rfl
    have hgrep : ∃ w', (Cmd.grepHeader .delBlock (arg args 0), w') ∈
        (user_del args).trace (exec e) w := by
      refine ⟨smbDeleted e (arg args 0) w, ?_⟩
      rw [htr]
      exact List.mem_append_right _ (by simp [delRest, share_del_block])
    rw [← blockGoes_smbDeleted, ← delRest_iff (arg args 0) msg]
    simp only [hgrep, hn, hp, not_false_eq_true, true_imp_iff]
    simp only [htr, List.mem_append, hid, hdel, false_or]
  | _ => exact Iff.rfl

/-! ## The pages -/

/-- The request asks for a shutdown or a reboot, and is confirmed. -/
def Orders (r : Request) : Prop :=
  r.method = POST ∧ r.get "confirm" = bytes "on" ∧
    (r.get "action" = bytes "poweroff" ∨ r.get "action" = bytes "reboot")

/-- The call the page has made issues the shutdown. -/
def Scheduled (e : Env) (r : Request) (flag : Bytes) (w : World) : Prop :=
  ∃ argv, (powerAction r).2 = some argv ∧ (Call.ofArgv argv []).Issues e w (.shutdown flag)

/-- What the page announces has been scheduled. -/
def PageTrue (e : Env) (r : Request) (w : World) : Prop :=
  ((power_cgi e r w).1 = .shuttingDown → Scheduled e r (bytes "-h") w) ∧
  ((power_cgi e r w).1 = .rebooting → Scheduled e r (bytes "-r") w)

theorem power_cgi_page (e : Env) (r : Request) (w : World) :
    (power_cgi e r w).1 = (powerAction r).1 := by
  unfold power_cgi
  split <;> simp_all

/-- **The page of a shutdown is true exactly when the LED takes its color.** -/
theorem shown_iff (e : Env) (r : Request) (w : World) :
    PageTrue e r w ↔ (Orders r → LedTakes e (bytes "yellow") w) := by
  have hoff : (Call.ofArgv [bytes "poweroff"] []).Issues e w (.shutdown (bytes "-h")) ↔
      LedTakes e (bytes "yellow") w := goesOn_iff e (Call.ofArgv [bytes "poweroff"] []) w
  have hre : (Call.ofArgv [bytes "reboot"] []).Issues e w (.shutdown (bytes "-r")) ↔
      LedTakes e (bytes "yellow") w := goesOn_iff e (Call.ofArgv [bytes "reboot"] []) w
  have hne : bytes "reboot" ≠ bytes "poweroff" := by decide
  rw [PageTrue, power_cgi_page, Orders]
  unfold Scheduled powerAction
  by_cases hm : r.method = POST
  swap
  · simp [hm]
  by_cases hc : r.get "confirm" = bytes "on"
  swap
  · simp [hm, hc]
  by_cases ha : r.get "action" = bytes "poweroff"
  · simp only [hm, hc, ha, ne_eq, not_true_eq_false, if_true, if_false]
    simpa using hoff
  by_cases hb : r.get "action" = bytes "reboot"
  · simp only [hm, hc, hb, hne, ne_eq, not_true_eq_false, if_true, if_false]
    simpa using hre
  · simp [hm, hc, ha, hb]

/-- **Exactly when the best-effort steps do not abort what they decorate**: the LED takes yellow,
and in `user-del` the block of the share can be removed if there is one. -/
theorem best_effort_iff (e : Env) (w : World) :
    (∀ c : Call, GoesOn e c w ↔ HelperReturns e c w) ∧
    (∀ r : Request, PageTrue e r w ↔ (Orders r → LedTakes e (bytes "yellow") w)) :=
  ⟨fun c => goesOn_iff e c w, fun r => shown_iff e r w⟩

/-- The driver rejects the color. -/
def driverDown : Env :=
  ⟨fun c => if c = .ledColor (bytes "yellow") then .fail 0 else .ok, fun _ => none⟩

def powerOffForm : Request :=
  formPost [(bytes "action", bytes "poweroff"), (bytes "confirm", bytes "on")]

/-- The page says that it is safe to unplug, and the box keeps running. -/
theorem not_shutting_down :
    (power_cgi driverDown powerOffForm (stage3World ∅)).1 = .shuttingDown ∧
    (power_cgi driverDown powerOffForm (stage3World ∅)).2.shutdown = none ∧
    ¬ PageTrue driverDown powerOffForm (stage3World ∅) ∧
    ¬ GoesOn driverDown ⟨.poweroff, [], []⟩ (stage3World ∅) := by
  have hled : ¬ LedTakes driverDown (bytes "yellow") (stage3World ∅) := by
    unfold LedTakes
    decide +kernel
  have hasks : Orders powerOffForm := by
    unfold Orders
    decide +kernel
  refine ⟨by decide +kernel, by decide +kernel, fun h => ?_, fun h => ?_⟩
  · exact hled ((shown_iff ..).1 h hasks)
  · exact hled ((goesOn_iff ..).1 h)

end Cgi
