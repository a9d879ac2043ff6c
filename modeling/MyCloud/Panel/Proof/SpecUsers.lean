import MyCloud.Panel.Proof.Spec

/-!
# What the user verbs do

As for the shares: the helpers as equations, the verbs as what each reply implies. The last part
is about the verbs that touch no share and no user (`quiet_core`).
-/

set_option autoImplicit false

namespace Panel

open Shell Script

variable {e : Env} {w w' : World} {args : List Bytes} {stdin m : Bytes}

/-! ## Memberships -/

theorem mem_join {w : World} {u g : Bytes} {p : Bytes × Bytes} :
    p ∈ (w.join u g).groups ↔ p ∈ w.groups ∨ p = (g, u) := by
  unfold World.join
  split
  · rename_i h
    exact ⟨.inl, fun h' => h'.elim id fun he => he ▸ h⟩
  · simp

@[simp] theorem join_accounts (w : World) (u g : Bytes) : (w.join u g).accounts = w.accounts := by
  unfold World.join
  split <;> rfl

@[simp] theorem join_passdb (w : World) (u g : Bytes) : (w.join u g).passdb = w.passdb := by
  unfold World.join
  split <;> rfl

@[simp] theorem join_smb (w : World) (u g : Bytes) : (w.join u g).smb = w.smb := by
  unfold World.join
  split <;> rfl

@[simp] theorem join_dirs (w : World) (u g : Bytes) : (w.join u g).dirs = w.dirs := by
  unfold World.join
  split <;> rfl

/-! ## `user-add` -/

theorem nl_notMem_readPass (stdin : Bytes) : nl ∉ readPass stdin := by
  unfold readPass
  split
  · intro h
    have := List.mem_takeWhile_imp (List.mem_of_mem_filter h)
    simp at this
  · simp

theorem newPassword_twice {p : Bytes} (hp : nl ∉ p) : newPassword (twice p) = some p := by
  have : lines (twice p) = [p, p] := records_terminate (by simpa using hp)
  simp [newPassword, this]

/-- The state after `id -u "$u" || adduser ...`, when the account then exists. -/
def accountWorld (u : Bytes) (w : World) : World :=
  if u ∈ w.accounts then w
  else { w with accounts := w.accounts.insert u (w.newUid w.accounts) }

theorem mem_accountWorld (u : Bytes) (w : World) : u ∈ (accountWorld u w).accounts := by
  unfold accountWorld
  split
  · assumption
  · simp

@[simp] theorem accountWorld_groups (u : Bytes) (w : World) :
    (accountWorld u w).groups = w.groups := by
  unfold accountWorld; split <;> rfl
@[simp] theorem accountWorld_passdb (u : Bytes) (w : World) :
    (accountWorld u w).passdb = w.passdb := by
  unfold accountWorld; split <;> rfl
@[simp] theorem accountWorld_smb (u : Bytes) (w : World) : (accountWorld u w).smb = w.smb := by
  unfold accountWorld; split <;> rfl
@[simp] theorem accountWorld_dirs (u : Bytes) (w : World) : (accountWorld u w).dirs = w.dirs := by
  unfold accountWorld; split <;> rfl

theorem user_add_account_eval (u : Bytes) :
    (user_add_account u).eval (exec e) w =
      if (e.ok (.id u) = true ∧ u ∈ w.accounts) ∨ (e.ok (.adduser u) = true ∧ u ∉ w.accounts) then
        (.ok (), accountWorld u w)
      else (.error (bytes "adduser failed"), w) := by
  by_cases hu : u ∈ w.accounts
  · cases hi : e.ok (.id u) <;> simp [user_add_account, accountWorld, die, hu, hi]
  · cases ha : e.ok (.adduser u) <;> simp [user_add_account, accountWorld, die, hu, ha]

/-- The state after the SMB password is set, or set to the constant and removed. -/
def passwordWorld (u pass : Bytes) (w : World) : World :=
  if pass ≠ [] then w.setPassword u (some pass)
  else (w.setPassword u (some (bytes "Temp0Pass1"))).setPassword u none

@[simp] theorem mem_setPassword (w : World) (u : Bytes) (p : Option Bytes) :
    u ∈ (w.setPassword u p).passdb := by simp [World.setPassword]

theorem user_add_password_eval {u pass : Bytes} (hp : nl ∉ pass) :
    (user_add_password u pass).eval (exec e) w =
      if pass ≠ [] then
        if e.ok (.smbpasswdAdd u (twice pass)) then (.ok (), passwordWorld u pass w)
        else (.error (bytes "smbpasswd failed"), w)
      else if e.ok (.smbpasswdAdd u (twice (bytes "Temp0Pass1"))) then
        if e.ok (.smbpasswdNull u) then (.ok (), passwordWorld u pass w)
        else (.error (bytes "smbpasswd -n failed"), w.setPassword u (some (bytes "Temp0Pass1")))
      else (.error (bytes "smbpasswd failed"), w) := by
  have ht : nl ∉ bytes "Temp0Pass1" := by decide
  by_cases hne : pass = []
  · cases ha : e.ok (.smbpasswdAdd u (twice (bytes "Temp0Pass1"))) <;>
      cases hn : e.ok (.smbpasswdNull u) <;>
      simp [user_add_password, passwordWorld, die, exec_smbpasswdAdd e w (newPassword_twice ht),
        hne, ha, hn]
  · cases ha : e.ok (.smbpasswdAdd u (twice pass)) <;>
      simp [user_add_password, passwordWorld, die, exec_smbpasswdAdd e w (newPassword_twice hp),
        hne, ha]

theorem user_add_password_ok {u : Bytes}
    (h : (user_add_password u (readPass stdin)).eval (exec e) w = (.ok (), w')) :
    w' = passwordWorld u (readPass stdin) w := by
  rw [user_add_password_eval (nl_notMem_readPass stdin)] at h
  split at h
  · split at h
    · exact (congrArg Prod.snd h).symm
    · cases h
  · split at h
    · split at h
      · exact (congrArg Prod.snd h).symm
      · cases h
    · cases h

theorem user_add_share_eval (u withshare : Bytes) :
    (user_add_share u withshare).eval (exec e) w =
      if withshare = bytes "share" ∧ e.greps .verb u w.smb = false then
        (share_add_block u .priv u).eval (exec e) (shareDir e u (bytes "2770") u w)
      else (.ok (), w) := by
  by_cases hs : withshare = bytes "share"
  · cases hg : e.greps .verb u w.smb
    · have hg' : (e.ok (.grepHeader .verb u) && hasHeader u w.smb) = false := hg
      simp [user_add_share, hs, hg', eval_bind]
      rfl
    · have hg' : (e.ok (.grepHeader .verb u) && hasHeader u w.smb) = true := hg
      simp [user_add_share, hs, hg']
  · simp [user_add_share, hs]

/-- The state of `user-add` before the password. -/
def joined (e : Env) (u : Bytes) (w : World) : World :=
  (exec e (.usermod u users) (accountWorld u w)).2

/-- The state of `user-add` before its share. -/
def userWorld (e : Env) (u pass : Bytes) (w : World) : World :=
  passwordWorld u pass (joined e u w)

theorem user_add_ok (h : (user_add args stdin).eval (exec e) w = (.ok m, w')) :
    nameRe (arg args 0) = true ∧ arg args 0 ∉ PROTECTED_USERS ∧
    arg args 0 ∈ (accountWorld (arg args 0) w).accounts ∧
    (user_add_share (arg args 0) (argOr args 1 (bytes "share"))).eval (exec e)
      (userWorld e (arg args 0) (readPass stdin) w) = (.ok (), w') := by
  unfold user_add at h
  rw [eval_bind_ok] at h
  obtain ⟨_, w₁, h1, h⟩ := h
  obtain ⟨hn, rfl⟩ := need_name_ok.1 h1
  simp only [eval_ite] at h
  split at h
  · cases h
  split at h
  · cases h
  rename_i hp
  rw [eval_bind_ok] at h
  obtain ⟨_, w₂, h2, h⟩ := h
  rw [user_add_account_eval] at h2
  split at h2
  · rename_i ha
    cases h2
    rw [sh_bind, eval_call, eval_bind_ok] at h
    obtain ⟨_, w₃, h3, h⟩ := h
    have h3' : w₃ = userWorld e (arg args 0) (readPass stdin) w₁ := user_add_password_ok h3
    subst h3'
    rw [eval_bind_ok] at h
    obtain ⟨_, w₄, h4, h⟩ := h
    have : w₄ = w' := by
      simp only [eval_ite] at h
      split at h <;> cases h <;> rfl
    subst this
    exact ⟨hn, hp, mem_accountWorld _ _, h4⟩
  · cases h2

/-- The states a refused `user-add` leaves behind: the old one, unless a command has failed. -/
theorem user_add_err (h : (user_add args stdin).eval (exec e) w = (.error m, w')) :
    w' = w ∨
    (nameRe (arg args 0) = true ∧ arg args 0 ∉ PROTECTED_USERS ∧ (∃ k, e.ok k = false) ∧
      (w' = joined e (arg args 0) w ∨
        (readPass stdin = [] ∧
          w' = (joined e (arg args 0) w).setPassword (arg args 0) (some (bytes "Temp0Pass1"))) ∨
        w' = shareDir e (arg args 0) (bytes "2770") (arg args 0)
          (userWorld e (arg args 0) (readPass stdin) w))) := by
  unfold user_add at h
  rw [eval_bind_error] at h
  rcases h with h | ⟨_, w₁, h1, h⟩
  · exact .inl (need_name_err.1 h).2.1
  obtain ⟨hn, rfl⟩ := need_name_ok.1 h1
  simp only [eval_ite] at h
  split at h
  · cases h; exact .inl rfl
  split at h
  · cases h; exact .inl rfl
  rename_i hp
  rw [eval_bind_error, user_add_account_eval] at h
  split at h
  swap
  · rcases h with h | ⟨_, _, h, -⟩
    · cases h; exact .inl rfl
    · cases h
  rcases h with h | ⟨_, w₂, h2, h⟩
  · cases h
  cases h2
  refine .inr ⟨hn, hp, ?_⟩
  rw [sh_bind, eval_call, eval_bind_error] at h
  rcases h with h | ⟨_, w₃, h3, h⟩
  · rw [user_add_password_eval (nl_notMem_readPass stdin)] at h
    split at h
    · split at h
      · cases h
      · rename_i hk
        cases h
        exact ⟨⟨_, by simpa using hk⟩, .inl rfl⟩
    · rename_i hp
      split at h
      · split at h
        · cases h
        · rename_i hk
          cases h
          exact ⟨⟨_, by simpa using hk⟩, .inr (.inl ⟨not_not.1 hp, rfl⟩)⟩
      · rename_i hk
        cases h
        exact ⟨⟨_, by simpa using hk⟩, .inl rfl⟩
  have h3' : w₃ = userWorld e (arg args 0) (readPass stdin) w₁ := user_add_password_ok h3
  subst h3'
  rw [eval_bind_error, user_add_share_eval] at h
  rcases h with h | ⟨_, w₄, -, h⟩
  · split at h
    · obtain ⟨rfl, hk⟩ := share_add_block_err h
      exact ⟨hk, .inr (.inr rfl)⟩
    · cases h
  · simp only [eval_ite] at h
    split at h <;> cases h

/-! ## `user-pass`, `user-admin` -/

/-- `pdbedit -L | grep -q "^$u:"`. -/
theorem mem_pdbedit {u : Bytes} :
    u ∈ ((exec e .pdbedit w).1 : List Bytes) ↔ e.ok .pdbedit = true ∧ u ∈ w.passdb := by
  rw [exec_pdbedit]
  cases e.ok .pdbedit <;> simp [AList.mem_keys]

theorem pdbedit_snd : (exec e .pdbedit w).2 = w := by rw [exec_pdbedit]

/-- `user-pass` of a valid name: three refusals, and the two ways to set a password. -/
theorem user_pass_exec (hn : nameRe (arg args 0) = true) (stdin : Bytes) :
    (user_pass args stdin).eval (exec e) w =
      if readPass stdin ≠ [] ∧ (readPass stdin).length < 4 then
        (.error (bytes "password too short (min 4 chars, or blank for none)"), w)
      else if ¬ (e.ok .pdbedit = true ∧ arg args 0 ∈ w.passdb) then
        (.error (bytes "no such SMB user"), w)
      else if readPass stdin ≠ [] then
        if e.ok (.smbpasswdSet (arg args 0) (twice (readPass stdin))) = true then
          (.ok (bytes "OK: password set for " ++ arg args 0),
            w.setPassword (arg args 0) (some (readPass stdin)))
        else (.error (bytes "smbpasswd failed"), w)
      else if e.ok (.smbpasswdNull (arg args 0)) = true then
        (.ok (bytes "OK: " ++ arg args 0 ++ bytes " now has no password"),
          w.setPassword (arg args 0) none)
      else (.error (bytes "smbpasswd failed"), w) := by
  have hneed : (need_name (arg args 0)).eval (exec e) w = (.ok (), w) := need_name_ok.2 ⟨hn, rfl⟩
  have hset := exec_smbpasswdSet e w (u := arg args 0) (newPassword_twice (nl_notMem_readPass stdin))
  unfold user_pass
  rw [eval_bind, hneed]
  simp only [eval_ite, sh_bind, eval_call, pdbedit_snd, die]
  split
  · rfl
  by_cases hu : arg args 0 ∈ ((exec e .pdbedit w).1 : List Bytes)
  swap
  · rw [if_neg hu, if_pos fun hp => hu (mem_pdbedit.2 hp)]
    rfl
  have hp := mem_pdbedit.1 hu
  rw [if_pos hu, if_neg (not_not.2 hp)]
  split
  · rw [hset]
    cases e.ok (.smbpasswdSet (arg args 0) (twice (readPass stdin))) <;> simp [hp.2]
  · rw [exec_smbpasswdNull]
    cases e.ok (.smbpasswdNull (arg args 0)) <;> simp [hp.2]

theorem user_pass_name (h : (user_pass args stdin).eval (exec e) w = (.ok m, w')) :
    nameRe (arg args 0) = true := by
  unfold user_pass at h
  rw [eval_bind_ok] at h
  obtain ⟨_, _, h1, -⟩ := h
  exact (need_name_ok.1 h1).1

theorem user_pass_ok (h : (user_pass args stdin).eval (exec e) w = (.ok m, w')) :
    nameRe (arg args 0) = true ∧ arg args 0 ∈ w.passdb ∧
    w' = w.setPassword (arg args 0)
      (if readPass stdin ≠ [] then some (readPass stdin) else none) := by
  have hn := user_pass_name h
  rw [user_pass_exec hn] at h
  split at h
  · cases h
  split at h
  · cases h
  rename_i hu
  refine ⟨hn, (not_not.1 hu).2, ?_⟩
  split at h
  · rename_i hp
    rw [if_pos hp]
    split at h
    · exact (congrArg Prod.snd h).symm
    · cases h
  · rename_i hp
    rw [if_neg hp]
    split at h
    · exact (congrArg Prod.snd h).symm
    · cases h

theorem user_pass_err (h : (user_pass args stdin).eval (exec e) w = (.error m, w')) : w' = w := by
  by_cases hn : nameRe (arg args 0) = true
  · rw [user_pass_exec hn] at h
    split_ifs at h <;> cases h <;> rfl
  · unfold user_pass at h
    rw [eval_bind_error] at h
    rcases h with h | ⟨_, _, h1, -⟩
    · exact (need_name_err.1 h).2.1
    · exact absurd (need_name_ok.1 h1).1 hn

theorem user_admin_ok (h : (user_admin args).eval (exec e) w = (.ok m, w')) :
    nameRe (arg args 0) = true ∧ arg args 0 ≠ alpha ∧ arg args 0 ∈ w.accounts ∧
    ((arg args 1 = bytes "on" ∧ w' = (exec e (.usermod (arg args 0) smbadmins) w).2) ∨
      (arg args 1 = bytes "off" ∧ w' = (exec e (.gpasswd (arg args 0) smbadmins) w).2)) := by
  unfold user_admin at h
  rw [eval_bind_ok] at h
  obtain ⟨_, w₁, h1, h⟩ := h
  obtain ⟨hn, rfl⟩ := need_name_ok.1 h1
  simp only [eval_ite] at h
  split at h
  · cases h
  rename_i ha
  simp only [sh_bind, eval_call, exec_id, eval_ite] at h
  split at h
  swap
  · cases h
  rename_i hid
  simp only [Bool.and_eq_true, decide_eq_true_eq] at hid
  refine ⟨hn, ha, hid.2, ?_⟩
  split at h
  · rename_i hon
    exact .inl ⟨hon, (congrArg Prod.snd h).symm⟩
  split at h
  · rename_i hoff
    exact .inr ⟨hoff, (congrArg Prod.snd h).symm⟩
  · cases h

theorem user_admin_err (h : (user_admin args).eval (exec e) w = (.error m, w')) : w' = w := by
  unfold user_admin at h
  rw [eval_bind_error] at h
  rcases h with h | ⟨_, w₁, h1, h⟩
  · exact (need_name_err.1 h).2.1
  obtain ⟨-, rfl⟩ := need_name_ok.1 h1
  simp only [eval_ite] at h
  split at h
  · cases h; rfl
  simp only [sh_bind, eval_call, exec_id, eval_ite] at h
  split at h
  swap
  · cases h; rfl
  split at h
  · cases h
  split at h
  · cases h
  · cases h; rfl

/-! ## `user-del` -/

/-- The state after `pdbedit -L | grep -q "^$u:" && smbpasswd -x "$u"`. -/
def smbDeleted (e : Env) (u : Bytes) (w : World) : World :=
  if e.ok .pdbedit = true ∧ u ∈ w.passdb then (exec e (.smbpasswdDel u) w).2 else w

/-- The state after `id -u "$u" && deluser "$u"`. -/
def accountDeleted (e : Env) (u : Bytes) (w : World) : World :=
  if e.ok (.id u) = true ∧ u ∈ w.accounts then (exec e (.deluser u) w).2 else w

theorem user_del_smb_eval (u : Bytes) :
    (user_del_smb u).eval (exec e) w = (.ok (), smbDeleted e u w) := by
  cases hp : e.ok .pdbedit
  · simp [user_del_smb, smbDeleted, hp]
  · by_cases hu : u ∈ w.passdb.keys
    · have : u ∈ w.passdb := hu
      simp [user_del_smb, smbDeleted, hp, hu, this]
    · have : u ∉ w.passdb := hu
      simp [user_del_smb, smbDeleted, hp, hu, this]

theorem user_del_account_eval (u : Bytes) :
    (user_del_account u).eval (exec e) w = (.ok (), accountDeleted e u w) := by
  by_cases hu : e.ok (.id u) = true ∧ u ∈ w.accounts
  · simp [user_del_account, accountDeleted, hu]
  · simp [user_del_account, accountDeleted, hu]

@[simp] theorem smbDeleted_smb (e : Env) (u : Bytes) (w : World) :
    (smbDeleted e u w).smb = w.smb := by
  unfold smbDeleted
  split
  · rw [exec_smbpasswdDel]; split <;> rfl
  · rfl

theorem user_del_ok (h : (user_del args).eval (exec e) w = (.ok m, w')) :
    nameRe (arg args 0) = true ∧ arg args 0 ∉ PROTECTED_USERS ∧
    ∃ b w₁, (share_del_block (arg args 0)).eval (exec e) (smbDeleted e (arg args 0) w) =
        (.ok b, w₁) ∧ w' = accountDeleted e (arg args 0) w₁ := by
  unfold user_del at h
  rw [eval_bind_ok] at h
  obtain ⟨_, w₁, h1, h⟩ := h
  obtain ⟨hn, rfl⟩ := need_name_ok.1 h1
  simp only [eval_ite] at h
  split at h
  · cases h
  rename_i hp
  rw [eval_bind_ok, user_del_smb_eval] at h
  obtain ⟨_, w₂, h2, h⟩ := h
  cases h2
  rw [eval_bind_ok] at h
  obtain ⟨b, w₃, h3, h⟩ := h
  rw [eval_bind_ok, user_del_account_eval] at h
  obtain ⟨_, w₄, h4, h⟩ := h
  cases h4
  exact ⟨hn, hp, b, w₃, h3, (congrArg Prod.snd h).symm⟩

theorem user_del_err (h : (user_del args).eval (exec e) w = (.error m, w')) :
    (w' = w ∧ (nameRe (arg args 0) = true → arg args 0 ∈ PROTECTED_USERS)) ∨
    (nameRe (arg args 0) = true ∧ arg args 0 ∉ PROTECTED_USERS ∧
      w' = smbDeleted e (arg args 0) w ∧
      (share_del_block (arg args 0)).eval (exec e) (smbDeleted e (arg args 0) w) =
        (.error m, w')) := by
  unfold user_del at h
  rw [eval_bind_error] at h
  rcases h with h | ⟨_, w₁, h1, h⟩
  · obtain ⟨hn, rfl, -⟩ := need_name_err.1 h
    exact .inl ⟨rfl, fun h => by rw [hn] at h; cases h⟩
  obtain ⟨hn, rfl⟩ := need_name_ok.1 h1
  simp only [eval_ite] at h
  split at h
  · rename_i hp
    cases h
    exact .inl ⟨rfl, fun _ => hp⟩
  rename_i hp
  rw [eval_bind_error, user_del_smb_eval] at h
  rcases h with h | ⟨_, w₂, h2, h⟩
  · cases h
  cases h2
  rw [eval_bind_error] at h
  rcases h with h | ⟨b, w₃, -, h⟩
  · exact .inr ⟨hn, hp, (share_del_block_err h).1, h⟩
  · rw [eval_bind_error, user_del_account_eval] at h
    rcases h with h | ⟨_, w₄, -, h⟩ <;> cases h

/-! ## smb.conf -/

@[simp] theorem setPassword_smb (w : World) (u : Bytes) (p : Option Bytes) :
    (w.setPassword u p).smb = w.smb := rfl

@[simp] theorem passwordWorld_smb (u pass : Bytes) (w : World) :
    (passwordWorld u pass w).smb = w.smb := by
  unfold passwordWorld; split <;> rfl

@[simp] theorem joined_smb (e : Env) (u : Bytes) (w : World) : (joined e u w).smb = w.smb := by
  simp only [joined, exec_usermod, accountWorld, World.join]
  split_ifs <;> rfl

@[simp] theorem userWorld_smb (e : Env) (u pass : Bytes) (w : World) :
    (userWorld e u pass w).smb = w.smb := by simp [userWorld]

@[simp] theorem accountDeleted_smb (e : Env) (u : Bytes) (w : World) :
    (accountDeleted e u w).smb = w.smb := by
  simp only [accountDeleted, exec_deluser, World.removeUser]
  split_ifs <;> rfl

end Panel
