import MyCloud.Panel.Proof.Stores

/-!
# What an ERR reply leaves behind

The verbs change up to four stores one after another and undo nothing when a later command fails.
`Remains` says what is left by a call that replied ERR, for each verb, whatever failed; without a
failed command nothing changes (`Remains.clean`). smb.conf is as it was in every case.

* `refused_remains`: the law.
* `refused_leftovers`: `user-add` leaves the account when `smbpasswd` fails after `adduser`.
-/

set_option autoImplicit false

namespace Panel

open Shell

/-- `w'` is `w` but for the account `u`, its SMB account, its membership of `users` and the
directory `u`. -/
structure OnlyUser (u : Bytes) (w w' : World) : Prop where
  smb : w'.smb = w.smb
  accounts : ∀ k ≠ u, w'.accounts.lookup k = w.accounts.lookup k
  passdb : ∀ k ≠ u, w'.passdb.lookup k = w.passdb.lookup k
  groups : w'.groups = w.groups ∨ w'.groups = w.groups ++ [(users, u)]
  dirs : ∀ k ≠ u, w'.dirs.lookup k = w.dirs.lookup k

/-- What is left by a call that replied ERR. -/
structure Remains (e : Env) (c : Call) (w w' : World) : Prop where
  smb : w'.smb = w.smb
  same : c.verb ∈ [.userPass, .userAdmin, .shareDel] → w' = w
  shareAdd : c.verb = .shareAdd → DirOnly c.name w w'
  userAdd : c.verb = .userAdd → OnlyUser c.name w w'
  userDel : c.verb = .userDel → (nameRe c.name = true → c.name ∈ PROTECTED_USERS) → w' = w
  clean : c.verb.writes = true → Succeeds e → w' = w

variable {e : Env} {c : Call} {w w' : World} {m : Bytes}

theorem OnlyUser.refl (u : Bytes) (w : World) : OnlyUser u w w :=
  ⟨rfl, fun _ _ => rfl, fun _ _ => rfl, .inl rfl, fun _ _ => rfl⟩

theorem onlyUser_joined (e : Env) (u : Bytes) (w : World) : OnlyUser u w (joined e u w) := by
  have hd : (joined e u w).dirs = w.dirs := by
    simp only [joined, exec_usermod, accountWorld, World.join]
    split_ifs <;> rfl
  have hacc : (joined e u w).accounts = (accountWorld u w).accounts := by
    simp only [joined, exec_usermod, World.join]
    split_ifs <;> rfl
  refine ⟨joined_smb .., fun k hk => ?_, fun k _ => ?_, ?_, fun k _ => by rw [hd]⟩
  · rw [hacc]
    unfold accountWorld
    split
    · rfl
    · exact AList.lookup_insert_ne hk
  · rw [joined_passdb]
  · simp only [joined, exec_usermod, World.join, accountWorld_groups]
    split_ifs
    · exact .inl (accountWorld_groups u w)
    · exact .inr rfl
    · exact .inl (accountWorld_groups u w)

theorem OnlyUser.setPassword {u : Bytes} (h : OnlyUser u w w') (p : Option Bytes) :
    OnlyUser u w (w'.setPassword u p) where
  smb := h.smb
  accounts := h.accounts
  passdb := fun k hk => (AList.lookup_insert_ne hk).trans (h.passdb k hk)
  groups := h.groups
  dirs := h.dirs

theorem OnlyUser.dir {u : Bytes} {w₁ : World} (h : OnlyUser u w w₁) (hd : DirOnly u w₁ w') :
    OnlyUser u w w' := by
  obtain ⟨hw, hk⟩ := hd
  rw [hw] at *
  exact ⟨h.smb, h.accounts, h.passdb, h.groups, fun k hne => (hk k hne).trans (h.dirs k hne)⟩

/-- **What a call that replied ERR leaves behind.** -/
theorem refused_remains (h : c.exec e w = (.error m, w')) : Remains e c w w' := by
  have hsmb := refused_smb h
  obtain ⟨v, args, stdin⟩ := c
  -- a failed command contradicts `Succeeds`
  have hfail : ∀ {p : Prop}, (∃ k, e.ok k = false) → Succeeds e → p := by
    rintro p ⟨k, hk⟩ he
    rw [he.ok] at hk
    cases hk
  cases v with
  | shareAdd =>
    refine ⟨hsmb, by simp, fun _ => ?_, by simp, by simp, fun _ he => ?_⟩
    · rcases share_add_err h with rfl | ⟨⟨o, mode, rfl⟩, -⟩
      · exact .refl _ _
      · exact shareDir_dirOnly ..
    · rcases share_add_err h with rfl | ⟨-, hk⟩
      · rfl
      · exact hfail hk he
  | userAdd =>
    refine ⟨hsmb, by simp, by simp, fun _ => ?_, by simp, fun _ he => ?_⟩
    · rcases user_add_err h with rfl | ⟨-, -, -, rfl | ⟨-, rfl⟩ | rfl⟩
      · exact .refl _ _
      · exact onlyUser_joined ..
      · exact (onlyUser_joined ..).setPassword _
      · refine OnlyUser.dir ?_ (shareDir_dirOnly ..)
        rw [userWorld, passwordWorld_eq]
        exact (onlyUser_joined ..).setPassword _
    · rcases user_add_err h with rfl | ⟨-, -, hk, -⟩
      · rfl
      · exact hfail hk he
  | userDel =>
    refine ⟨hsmb, by simp, by simp, by simp, fun _ hn => ?_, fun _ he => ?_⟩
    · rcases user_del_err h with ⟨rfl, -⟩ | ⟨hn', hp, -, -⟩
      · rfl
      · exact absurd (hn hn') hp
    · rcases user_del_err h with ⟨rfl, -⟩ | ⟨-, -, -, hb⟩
      · rfl
      · exact hfail (share_del_block_err hb).2 he
  | shareDel =>
    have hw := share_del_err h
    exact ⟨hsmb, fun _ => hw, by simp, by simp, by simp, fun _ _ => hw⟩
  | userPass =>
    have hw := user_pass_err h
    exact ⟨hsmb, fun _ => hw, by simp, by simp, by simp, fun _ _ => hw⟩
  | userAdmin =>
    have hw := user_admin_err h
    exact ⟨hsmb, fun _ => hw, by simp, by simp, by simp, fun _ _ => hw⟩
  | _ => exact ⟨hsmb, by simp, by simp, by simp, by simp, by simp [Verb.writes]⟩

/-- `smbpasswd` fails, everything else succeeds. -/
def noSmbpasswd : Env where
  outcome c := match c with
    | .smbpasswdAdd _ _ => .fail 0
    | _ => .ok
  probe _ := none

/-- `user-add bob` on the box as built, refused because `smbpasswd` fails. -/
theorem refused_bob :
    let c : Call := ⟨.userAdd, [bytes "bob"], []⟩
    Remains noSmbpasswd c (stage3World ∅) (c.exec noSmbpasswd (stage3World ∅)).2 :=
  refused_remains (m := bytes "smbpasswd failed") (Prod.ext (by decide +kernel) rfl)

/-- It leaves the account behind. -/
theorem refused_leftovers :
    let c : Call := ⟨.userAdd, [bytes "bob"], []⟩
    let w := stage3World ∅
    (c.exec noSmbpasswd w).1 = .error (bytes "smbpasswd failed") ∧ bytes "bob" ∉ w.accounts ∧
      bytes "bob" ∈ (c.exec noSmbpasswd w).2.accounts := by
  decide +kernel

end Panel
