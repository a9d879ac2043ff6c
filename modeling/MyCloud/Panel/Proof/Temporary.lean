import MyCloud.Panel.Proof.Stores

/-!
# The temporary password of `user-add`

A blank password is set as the constant `Temp0Pass1` and then removed by a second command.

* `user_add_cut_blank`, `user_add_cut_submitted`: the SMB accounts when `user-add` is killed after
  any number of commands.
* `temporary_cleared_iff`: when it leaves the constant behind, killed or not.
-/

set_option autoImplicit false

namespace Panel

open Shell Script

variable {e : Env} {w w' : World} {args : List Bytes} {stdin u pass : Bytes}

/-- The constant `user-add` sets first. -/
def temporary : Bytes := bytes "Temp0Pass1"

theorem nl_notMem_temporary : nl ∉ temporary := by decide

/-! ## The commands that set no password -/

def Cmd.LeavesPasswords : Cmd → Prop
  | .smbpasswdAdd _ _ | .smbpasswdSet _ _ | .smbpasswdNull _ | .smbpasswdDel _ => False
  | _ => True

theorem exec_leavesPasswords (e : Env) (c : Cmd) (hc : c.LeavesPasswords) (w : World) :
    (exec e c w).2.passdb = w.passdb := by
  cases c with
  | smbpasswdAdd | smbpasswdSet | smbpasswdNull | smbpasswdDel => cases hc
  | adduser | gpasswd => simp only [exec]; split <;> rfl
  | usermod => simp only [exec, World.join]; split_ifs <;> rfl
  | deluser => simp only [exec, World.removeUser]; split <;> rfl
  | writeConf => rfl
  | _ => exact quiet_passdb e (by trivial) w

theorem user_add_account_leavesPasswords (u : Bytes) :
    (user_add_account u).Uses Cmd.LeavesPasswords := by
  simp [user_add_account, die, Cmd.LeavesPasswords]

theorem user_add_share_leavesPasswords (u withshare : Bytes) :
    (user_add_share u withshare).Uses Cmd.LeavesPasswords := by
  simp [user_add_share, share_dir, share_add_block, die, Cmd.LeavesPasswords]

theorem cut_leavesPasswords {α : Type} {p : Op α} (hp : p.Uses Cmd.LeavesPasswords) (e : Env)
    (n : ℕ) (w : World) : (p.cut (exec e) n w).passdb = w.passdb :=
  cut_keeps (I := fun w' => w'.passdb = w.passdb) hp
    (fun _ hc w' h => (exec_leavesPasswords e _ hc w').trans h) n rfl

/-! ## `user-add`, killed after `n` commands -/

section
variable {α : Type} {p : Unit → Op α}

theorem user_add_password_blank (u : Bytes) : user_add_password u [] >>= p =
    .call (.smbpasswdAdd u (twice temporary)) fun r =>
      if r then .call (.smbpasswdNull u) fun r => if r then p () else die "smbpasswd -n failed"
      else die "smbpasswd failed" := by
  simp [user_add_password, die, temporary]

theorem user_add_password_submitted (hp : pass ≠ []) (u : Bytes) : user_add_password u pass >>= p =
    .call (.smbpasswdAdd u (twice pass)) fun r => if r then p () else die "smbpasswd failed" := by
  simp [user_add_password, die, hp]

/-- Both commands of a blank password, and what follows them. -/
theorem password_cut_blank (hp : ∀ r, (p r).Uses Cmd.LeavesPasswords) (u : Bytes) (n : ℕ)
    (w : World) :
    ((user_add_password u [] >>= p).cut (exec e) n w).passdb =
      if e.ok (.smbpasswdAdd u (twice temporary)) = true ∧ 1 ≤ n then
        if n = 1 ∨ e.ok (.smbpasswdNull u) = false then w.passdb.insert u (some temporary)
        else (w.passdb.insert u (some temporary)).insert u none
      else w.passdb := by
  have hset := exec_smbpasswdAdd e w (u := u) (newPassword_twice nl_notMem_temporary)
  rw [user_add_password_blank]
  cases n with
  | zero => simp
  | succ n =>
    rw [cut_call, hset]
    cases ha : e.ok (.smbpasswdAdd u (twice temporary)) with
    | false => simp [die]
    | true =>
      cases n with
      | zero => simp [World.setPassword]
      | succ n =>
        cases hk : e.ok (.smbpasswdNull u) with
        | false => simp [World.setPassword, die, hk]
        | true => simp [World.setPassword, hk, cut_leavesPasswords (hp _)]

theorem password_cut_submitted (hp : ∀ r, (p r).Uses Cmd.LeavesPasswords) (hne : pass ≠ [])
    (hnl : nl ∉ pass) (u : Bytes) (n : ℕ) (w : World) :
    ((user_add_password u pass >>= p).cut (exec e) n w).passdb = w.passdb ∨
      ((user_add_password u pass >>= p).cut (exec e) n w).passdb = w.passdb.insert u (some pass) := by
  have hset := exec_smbpasswdAdd e w (u := u) (newPassword_twice hnl)
  rw [user_add_password_submitted hne]
  cases n with
  | zero => exact .inl (by simp)
  | succ n =>
    rw [cut_call, hset]
    cases ha : e.ok (.smbpasswdAdd u (twice pass)) with
    | false => exact .inl (by simp [die])
    | true => exact .inr (by simp [World.setPassword, cut_leavesPasswords (hp _)])

end

/-- The commands of `user-add` up to the first `smbpasswd`. -/
def commandsBefore (e : Env) (u : Bytes) (w : World) : ℕ :=
  if e.ok (.id u) = true ∧ u ∈ w.accounts then 2 else 3

theorem account_trace (e : Env) (u : Bytes) (w : World) :
    ((user_add_account u).trace (exec e) w).length + 1 = commandsBefore e u w := by
  by_cases hu : u ∈ w.accounts <;> cases hi : e.ok (.id u) <;> cases ha : e.ok (.adduser u) <;>
    simp [user_add_account, die, commandsBefore, hu, hi, ha]

/-- What `user-add` does after the password. -/
def user_add_rest (u withshare pass : Bytes) : Op Bytes := do
  user_add_share u withshare
  if pass ≠ [] then
    return bytes "OK: user " ++ u ++ bytes " created"
  else
    return bytes "OK: user " ++ u ++ bytes " created (no password)"

theorem user_add_rest_leavesPasswords (u withshare pass : Bytes) :
    (user_add_rest u withshare pass).Uses Cmd.LeavesPasswords :=
  uses_bind (user_add_share_leavesPasswords u withshare) fun _ => by simp

/-- The checks of `user-add` before its first command. -/
def Checked (args : List Bytes) (stdin : Bytes) : Prop :=
  nameRe (arg args 0) = true ∧ ¬ (readPass stdin ≠ [] ∧ (readPass stdin).length < 4) ∧
    arg args 0 ∉ PROTECTED_USERS

theorem user_add_eq (h : Checked args stdin) : user_add args stdin =
    user_add_account (arg args 0) >>= fun _ => .call (.usermod (arg args 0) users) fun _ =>
      user_add_password (arg args 0) (readPass stdin) >>= fun _ =>
        user_add_rest (arg args 0) (argOr args 1 (bytes "share")) (readPass stdin) := by
  obtain ⟨hn, hs, hp⟩ := h
  simp only [user_add, need_name, hn, hs, hp, if_true, if_false, pure_eq_ret, ret_bind, sh_bind]
  rfl

theorem user_add_unchecked (h : ¬ Checked args stdin) (n : ℕ) (w : World) :
    (user_add args stdin).cut (exec e) n w = w := by
  by_cases hn : nameRe (arg args 0) = true
  · by_cases hs : readPass stdin ≠ [] ∧ (readPass stdin).length < 4
    · simp [user_add, need_name, hn, hs, die]
    · have hp : arg args 0 ∈ PROTECTED_USERS := not_not.1 fun hp => h ⟨hn, hs, hp⟩
      simp only [user_add, need_name, hn, hs, hp, if_true, if_false, pure_eq_ret, ret_bind, die,
        exit_bind, cut_exit]
  · simp [user_add, need_name, hn]

/-- The account exists, or is created. -/
def AccountReady (e : Env) (u : Bytes) (w : World) : Prop :=
  (e.ok (.id u) = true ∧ u ∈ w.accounts) ∨ (e.ok (.adduser u) = true ∧ u ∉ w.accounts)

/-- The SMB accounts come from the password commands, once the account is ready. -/
theorem user_add_cut (h : Checked args stdin) (ha : AccountReady e (arg args 0) w) (n : ℕ) :
    ((user_add args stdin).cut (exec e) n w).passdb =
      ((user_add_password (arg args 0) (readPass stdin) >>= fun _ =>
        user_add_rest (arg args 0) (argOr args 1 (bytes "share")) (readPass stdin)).cut (exec e)
          (n - commandsBefore e (arg args 0) w) (joined e (arg args 0) w)).passdb := by
  have hev : (user_add_account (arg args 0)).eval (exec e) w =
      (.ok (), accountWorld (arg args 0) w) := (user_add_account_eval _).trans (if_pos ha)
  rw [user_add_eq h, cut_bind_frame World.passdb (user_add_account_leavesPasswords _)
    (exec_leavesPasswords e) hev, ← account_trace, ← Nat.sub_sub]
  cases n - ((user_add_account (arg args 0)).trace (exec e) w).length with
  | zero =>
    rw [Nat.zero_sub, cut_zero, cut_zero, joined_passdb, accountWorld_passdb]
  | succ n => rw [cut_call, Nat.add_sub_cancel]; rfl

theorem user_add_not_ready (h : Checked args stdin) (ha : ¬ AccountReady e (arg args 0) w) (n : ℕ) :
    ((user_add args stdin).cut (exec e) n w).passdb = w.passdb := by
  have hev : (user_add_account (arg args 0)).eval (exec e) w =
      (.error (bytes "adduser failed"), w) := (user_add_account_eval _).trans (if_neg ha)
  rw [user_add_eq h, cut_bind_error hev, cut_leavesPasswords (user_add_account_leavesPasswords _)]

/-! ## When the constant survives -/

/-- The state when a call is killed after `n` commands. -/
def Call.killed (e : Env) (n : ℕ) (c : Call) (w : World) : World :=
  (panel_op c.verb c.args c.stdin).cut (Panel.exec e) n w

/-- The only accounts with the constant are those that had it, unless it was submitted. -/
def Cleared (pass : Bytes) (w w' : World) : Prop :=
  ∀ v, w'.passdb.lookup v = some (some temporary) →
    w.passdb.lookup v = some (some temporary) ∨ pass = temporary

/-- A complete `user-add` sets the constant. -/
def SetsTemporary (e : Env) (args : List Bytes) (stdin : Bytes) (w : World) : Prop :=
  Checked args stdin ∧ readPass stdin = [] ∧ AccountReady e (arg args 0) w ∧
    e.ok (.smbpasswdAdd (arg args 0) (twice temporary)) = true

theorem cleared_of_passdb (h : w'.passdb = w.passdb) : Cleared pass w w' := by
  intro v hv
  rw [h] at hv
  exact .inl hv

/-- An account that gets another password leaves no constant, and the others are as before. -/
theorem cleared_insert {p : Option Bytes} (h : w'.passdb = w.passdb.insert u p)
    (hp : p = some temporary → pass = temporary) : Cleared pass w w' := by
  intro v hv
  rw [h] at hv
  by_cases hvu : v = u
  · subst hvu
    rw [AList.lookup_insert] at hv
    exact .inr (hp (Option.some.inj hv))
  · rw [AList.lookup_insert_ne hvu] at hv
    exact .inl hv

theorem cleared_temporary_iff (h : w'.passdb = w.passdb.insert u (some temporary))
    (hp : pass ≠ temporary) : Cleared pass w w' ↔ w.passdb.lookup u = some (some temporary) := by
  constructor
  · intro hs
    have hu : w'.passdb.lookup u = some (some temporary) := by rw [h, AList.lookup_insert]
    exact (hs u hu).resolve_right hp
  · intro hu v hv
    rw [h] at hv
    by_cases hvu : v = u
    · exact .inl (hvu ▸ hu)
    · rw [AList.lookup_insert_ne hvu] at hv
      exact .inl hv

/-- Killed after `n` commands. -/
theorem killed_cleared_iff (e : Env) (args : List Bytes) (stdin : Bytes) (w : World) (n : ℕ) :
    Cleared (readPass stdin) w ((⟨.userAdd, args, stdin⟩ : Call).killed e n w) ↔
      (SetsTemporary e args stdin w → commandsBefore e (arg args 0) w < n →
        w.passdb.lookup (arg args 0) = some (some temporary) ∨
          (n ≠ commandsBefore e (arg args 0) w + 1 ∧ e.ok (.smbpasswdNull (arg args 0)) = true)) := by
  change Cleared _ _ ((user_add args stdin).cut (exec e) n w) ↔ _
  by_cases hc : Checked args stdin
  swap
  · exact iff_of_true (cleared_of_passdb (by rw [user_add_unchecked hc])) fun h => absurd h.1 hc
  by_cases ha : AccountReady e (arg args 0) w
  swap
  · exact iff_of_true (cleared_of_passdb (user_add_not_ready hc ha n)) fun h => absurd h.2.2.1 ha
  have hcut := user_add_cut hc ha n
  by_cases hb : readPass stdin = []
  swap
  · refine iff_of_true ?_ fun h => absurd h.2.1 hb
    rcases password_cut_submitted (fun _ => user_add_rest_leavesPasswords _ _ _) hb
      (nl_notMem_readPass stdin) (arg args 0) (n - commandsBefore e (arg args 0) w)
      (joined e (arg args 0) w) with h | h
    · exact cleared_of_passdb (by rw [hcut, h, joined_passdb])
    · rw [joined_passdb] at h
      exact cleared_insert (hcut.trans h) fun hp => Option.some.inj hp
  rw [hb, password_cut_blank fun _ => user_add_rest_leavesPasswords _ _ _, joined_passdb] at hcut
  rw [hb]
  have hne : ([] : Bytes) ≠ temporary := by decide
  have hset : SetsTemporary e args stdin w ↔
      e.ok (.smbpasswdAdd (arg args 0) (twice temporary)) = true :=
    ⟨fun h => h.2.2.2, fun h => ⟨hc, hb, ha, h⟩⟩
  rw [hset]
  split at hcut
  · rename_i hk
    obtain ⟨hadd, hn⟩ := hk
    have hlt : commandsBefore e (arg args 0) w < n := by omega
    simp only [hadd, hlt, true_imp_iff]
    split at hcut
    · rename_i hk
      rw [cleared_temporary_iff hcut hne]
      refine ⟨.inl, fun h => h.resolve_right fun ⟨h1, h2⟩ => ?_⟩
      rcases hk with hk | hk
      · omega
      · rw [h2] at hk
        cases hk
    · rename_i hk
      rw [AList.insert_insert] at hcut
      rw [not_or, Bool.not_eq_false] at hk
      have hp : (none : Option Bytes) = some temporary → [] = temporary :=
        fun h => absurd h (Option.some_ne_none _).symm
      exact iff_of_true (cleared_insert hcut hp) (.inr ⟨by omega, hk.2⟩)
  · rename_i hk
    refine iff_of_true (cleared_of_passdb hcut) fun hadd hlt => ?_
    exact absurd ⟨hadd, by omega⟩ hk

/-- **The constant survives `user-add`**, killed after `n` commands or complete, just when it has been
set, for an account that did not have it, and not been removed. -/
theorem temporary_cleared_iff (e : Env) (args : List Bytes) (stdin : Bytes) (w : World) :
    let c : Call := ⟨.userAdd, args, stdin⟩
    (∀ n, Cleared (readPass stdin) w (c.killed e n w) ↔
      (SetsTemporary e args stdin w → commandsBefore e (arg args 0) w < n →
        w.passdb.lookup (arg args 0) = some (some temporary) ∨
          (n ≠ commandsBefore e (arg args 0) w + 1 ∧
            e.ok (.smbpasswdNull (arg args 0)) = true))) ∧
    (Cleared (readPass stdin) w (c.exec e w).2 ↔
      (SetsTemporary e args stdin w → w.passdb.lookup (arg args 0) = some (some temporary) ∨
        e.ok (.smbpasswdNull (arg args 0)) = true)) := by
  intro c
  refine ⟨killed_cleared_iff e args stdin w, ?_⟩
  -- a complete run is one killed late enough
  obtain ⟨k, hk⟩ := cut_eq_eval (exec e) (panel_op c.verb c.args c.stdin) w
  have h := killed_cleared_iff e args stdin w (k + commandsBefore e (arg args 0) w + 2)
  rw [Call.killed, hk _ (by omega)] at h
  have hlt : commandsBefore e (arg args 0) w < k + commandsBefore e (arg args 0) w + 2 := by omega
  have hne : k + commandsBefore e (arg args 0) w + 2 ≠ commandsBefore e (arg args 0) w + 1 := by omega
  simp only [hlt, hne, true_imp_iff, ne_eq, not_false_eq_true, true_and] at h
  exact h

/-- `smbpasswd -n` fails. -/
def noNull : Env where
  outcome c := match c with
    | .smbpasswdNull _ => .fail 0
    | _ => .ok
  probe _ := none

/-- `user-add bob` with a blank password on the box as built: killed after its fourth command, or
when `smbpasswd -n` fails. -/
theorem bob_temporary :
    let c : Call := ⟨.userAdd, [bytes "bob"], bytes "\n"⟩
    let w := stage3World ∅
    ¬ Cleared (readPass c.stdin) w (c.killed allOk 4 w) ∧
      ¬ Cleared (readPass c.stdin) w (c.exec noNull w).2 := by
  intro c w
  have hp : readPass c.stdin ≠ temporary := by decide
  have hw : w.passdb.lookup (bytes "bob") ≠ some (some temporary) := by decide +kernel
  have hk : (c.killed allOk 4 w).passdb.lookup (bytes "bob") = some (some temporary) := by
    decide +kernel
  have hx : (c.exec noNull w).2.passdb.lookup (bytes "bob") = some (some temporary) := by
    decide +kernel
  exact ⟨fun h => (h _ hk).elim hw hp, fun h => (h _ hx).elim hw hp⟩

end Panel
