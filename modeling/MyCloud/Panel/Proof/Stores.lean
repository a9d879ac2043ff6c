import MyCloud.Panel.Proof.Runs

/-!
# What a call does to the accounts

`StoreChange e c ok w w'` lists everything a call can do to the unix accounts, the groups and the
SMB accounts, in every environment (`exec_stores`). Each invariant of these stores is a case
analysis on it; `mem_groups_of_stores` is the one for the memberships a call adds.
-/

set_option autoImplicit false

namespace Panel

open Shell

/-- Unix accounts, groups and SMB accounts; and the uids for new accounts. -/
def World.stores (w : World) := (w.accounts, w.groups, w.passdb, w.newUid)

section
variable {w w' : World}

theorem stores_accounts (h : w'.stores = w.stores) : w'.accounts = w.accounts := congrArg (·.1) h
theorem stores_groups (h : w'.stores = w.stores) : w'.groups = w.groups := congrArg (·.2.1) h
theorem stores_passdb (h : w'.stores = w.stores) : w'.passdb = w.passdb := congrArg (·.2.2.1) h
theorem stores_newUid (h : w'.stores = w.stores) : w'.newUid = w.newUid := congrArg (·.2.2.2) h

end

/-- What a call does to the accounts, by its verb and reply. -/
inductive StoreChange (e : Env) (c : Call) : Bool → World → World → Prop
  | same {ok : Bool} {w w' : World} (hs : w'.stores = w.stores)
      (h : ok = true → c.verb ∉ [.userAdd, .userPass, .userAdmin, .userDel]) :
      StoreChange e c ok w w'
  | joined {w w' : World} (hv : c.verb = .userAdd) (hn : nameRe c.name = true)
      (hp : c.name ∉ PROTECTED_USERS) (h : w'.stores = (joined e c.name w).stores) :
      StoreChange e c false w w'
  | created {ok : Bool} {w w' : World} {p : Option Bytes} (hv : c.verb = .userAdd)
      (hn : nameRe c.name = true) (hp : c.name ∉ PROTECTED_USERS)
      (h : w'.stores = ((joined e c.name w).setPassword c.name p).stores) :
      StoreChange e c ok w w'
  | password {w w' : World} {p : Option Bytes} (hv : c.verb = .userPass)
      (hn : nameRe c.name = true) (hu : c.name ∈ w.passdb)
      (h : w'.stores = (w.setPassword c.name p).stores) : StoreChange e c true w w'
  | admin {w w' : World} (hv : c.verb = .userAdmin) (hn : nameRe c.name = true)
      (ha : c.name ≠ alpha) (hu : c.name ∈ w.accounts) (hon : arg c.args 1 = bytes "on")
      (h : w' = (exec e (.usermod c.name smbadmins) w).2) : StoreChange e c true w w'
  | notAdmin {w w' : World} (hv : c.verb = .userAdmin) (hn : nameRe c.name = true)
      (ha : c.name ≠ alpha) (hu : c.name ∈ w.accounts) (hoff : arg c.args 1 = bytes "off")
      (h : w' = (exec e (.gpasswd c.name smbadmins) w).2) : StoreChange e c true w w'
  | smbDeleted {w w' : World} (hv : c.verb = .userDel) (hn : nameRe c.name = true)
      (hp : c.name ∉ PROTECTED_USERS) (h : w'.stores = (smbDeleted e c.name w).stores) :
      StoreChange e c false w w'
  | deleted {w w' : World} (hv : c.verb = .userDel) (hn : nameRe c.name = true)
      (hp : c.name ∉ PROTECTED_USERS)
      (h : w'.stores = (accountDeleted e c.name (smbDeleted e c.name w)).stores) :
      StoreChange e c true w w'

theorem shareDir_stores (e : Env) (o mode n : Bytes) (w : World) :
    (shareDir e o mode n w).stores = w.stores := by
  rw [(shareDir_dirOnly e o mode n w).1]
  rfl

theorem passwordWorld_eq (u pass : Bytes) (w : World) :
    passwordWorld u pass w = w.setPassword u (if pass ≠ [] then some pass else none) := by
  unfold passwordWorld
  split
  · rfl
  · simp [World.setPassword, AList.insert_insert]

theorem accountDeleted_conf (e : Env) (u t : Bytes) (w : World) :
    (accountDeleted e u { w with smb := t }).stores = (accountDeleted e u w).stores := by
  simp only [accountDeleted, exec_deluser, World.removeUser]
  split_ifs <;> rfl

theorem share_add_block_stores {e : Env} {n owner : Bytes} {typ : ShareType} {w w' : World}
    {r : Except Bytes Unit} (h : (share_add_block n typ owner).eval (exec e) w = (r, w')) :
    w'.stores = w.stores := by
  rw [share_add_block_eval] at h
  split_ifs at h <;> (cases h; rfl)

/-- The password a call sets. -/
def Call.password (c : Call) : Option Bytes :=
  if readPass c.stdin ≠ [] then some (readPass c.stdin) else none

variable {e : Env} {c : Call} {w w' : World} {m : Bytes}

theorem user_add_stores (hv : c.verb = .userAdd) (h : c.exec e w = (.ok m, w')) :
    w'.stores = ((joined e c.name w).setPassword c.name c.password).stores := by
  obtain ⟨v, args, stdin⟩ := c
  subst hv
  obtain ⟨-, -, -, hs⟩ := user_add_ok h
  rw [Call.password, ← passwordWorld_eq]
  rw [user_add_share_eval] at hs
  split at hs
  · exact (share_add_block_stores hs).trans (shareDir_stores ..)
  · cases hs; rfl

theorem refused_stores (h : c.exec e w = (.error m, w')) : StoreChange e c false w w' := by
  obtain ⟨v, args, stdin⟩ := c
  by_cases hv : v.writes = true
  · cases v with
    | shareAdd =>
      rcases share_add_err h with rfl | ⟨⟨o, mode, rfl⟩, -⟩
      · exact .same rfl (by simp)
      · exact .same (shareDir_stores ..) (by simp)
    | shareDel => rw [share_del_err h]; exact .same rfl (by simp)
    | userAdd =>
      rcases user_add_err h with rfl | ⟨hn, hp, -, rfl | ⟨-, rfl⟩ | rfl⟩
      · exact .same rfl (by simp)
      · exact .joined rfl hn hp rfl
      · exact .created rfl hn hp rfl
      · refine .created (p := if readPass stdin ≠ [] then some (readPass stdin) else none)
          rfl hn hp ?_
        rw [shareDir_stores, userWorld, passwordWorld_eq]
    | userPass => rw [user_pass_err h]; exact .same rfl (by simp)
    | userAdmin => rw [user_admin_err h]; exact .same rfl (by simp)
    | userDel =>
      rcases user_del_err h with ⟨rfl, -⟩ | ⟨hn, hp, rfl, -⟩
      · exact .same rfl (by simp)
      · exact .smbDeleted rfl hn hp rfl
    | _ => cases hv
  · have hq := quiet_core (c := ⟨v, args, stdin⟩) (by simpa using hv) e w
    rw [h] at hq
    exact .same (congrArg (·.2) hq) (by simp)

theorem accepted_stores (h : c.exec e w = (.ok m, w')) : StoreChange e c true w w' := by
  obtain ⟨v, args, stdin⟩ := c
  by_cases hv : v.writes = true
  · cases v with
    | shareAdd =>
      obtain ⟨-, -, typ, o, mode, -, -, rfl, -⟩ := share_add_ok h
      exact .same (shareDir_stores e o mode _ w) (by simp)
    | shareDel =>
      obtain ⟨-, -, -, b, hb⟩ := share_del_ok h
      rcases share_del_block_ok.1 hb with ⟨-, -, -, -, rfl⟩ | ⟨-, -, rfl⟩ <;>
        exact .same rfl (by simp)
    | userAdd =>
      obtain ⟨hn, hp, -⟩ := user_add_ok h
      exact .created rfl hn hp (user_add_stores rfl h)
    | userPass =>
      obtain ⟨hn, hu, rfl⟩ := user_pass_ok h
      exact .password rfl hn hu rfl
    | userAdmin =>
      rcases user_admin_ok h with ⟨hn, ha, hu, ⟨hon, rfl⟩ | ⟨hoff, rfl⟩⟩
      · exact .admin rfl hn ha hu hon rfl
      · exact .notAdmin rfl hn ha hu hoff rfl
    | userDel =>
      obtain ⟨hn, hp, b, w₁, hb, rfl⟩ := user_del_ok h
      refine .deleted rfl hn hp ?_
      rcases share_del_block_ok.1 hb with ⟨-, -, -, -, rfl⟩ | ⟨-, -, rfl⟩
      · exact accountDeleted_conf ..
      · rfl
    | _ => cases hv
  · have hq := quiet_core (c := ⟨v, args, stdin⟩) (by simpa using hv) e w
    rw [h] at hq
    refine .same (congrArg (·.2) hq) fun _ hm => hv ?_
    simp only [List.mem_cons, List.not_mem_nil, or_false] at hm
    rcases hm with rfl | rfl | rfl | rfl <;> rfl

/-- **Everything a call can do to the accounts.** -/
theorem exec_stores (e : Env) (c : Call) (w : World) :
    StoreChange e c (c.accepted e w) w (c.exec e w).2 := by
  cases ha : c.accepted e w
  · obtain ⟨m, w', h⟩ := Call.not_accepted_iff.1 ha
    rw [h]
    exact refused_stores h
  · obtain ⟨m, w', h⟩ := Call.accepted_iff.1 ha
    rw [h]
    exact accepted_stores h

/-! ## Memberships -/

theorem joined_passdb (e : Env) (u : Bytes) (w : World) : (joined e u w).passdb = w.passdb := by
  simp only [joined, exec_usermod, accountWorld, World.join]
  split_ifs <;> rfl

theorem mem_joined {e : Env} {u : Bytes} {w : World} {p : Bytes × Bytes} :
    p ∈ (joined e u w).groups ↔
      p ∈ w.groups ∨ (e.ok (.usermod u users) = true ∧ p = (users, u)) := by
  rw [joined, exec_usermod]
  split
  · rename_i h
    rw [mem_join, accountWorld_groups]
    exact or_congr_right ⟨fun hp => ⟨h.1, hp⟩, fun hp => hp.2⟩
  · rename_i h
    rw [accountWorld_groups]
    exact ⟨.inl, fun hp => hp.resolve_right fun hp => h ⟨hp.1, mem_accountWorld u w⟩⟩

/-- A membership a call adds is of `users`, by `user-add`, or of `smbadmins`, by `user-admin on`. -/
theorem mem_groups_of_stores {ok : Bool} (h : StoreChange e c ok w w') {p : Bytes × Bytes}
    (hp : p ∈ w'.groups) : p ∈ w.groups ∨ (c.verb = .userAdd ∧ p = (users, c.name)) ∨
      (c.verb = .userAdmin ∧ arg c.args 1 = bytes "on" ∧ ok = true ∧ p = (smbadmins, c.name)) := by
  have hdel : ∀ u w, p ∈ (smbDeleted e u w).groups → p ∈ w.groups := by
    intro u w h
    rw [smbDeleted, exec_smbpasswdDel] at h
    split_ifs at h <;> exact h
  cases h with
  | same hs => exact .inl (stores_groups hs ▸ hp)
  | joined hv _ _ hs =>
    rw [stores_groups hs] at hp
    exact (mem_joined.1 hp).imp_right fun h => .inl ⟨hv, h.2⟩
  | created hv _ _ hs =>
    rw [stores_groups hs] at hp
    exact (mem_joined.1 hp).imp_right fun h => .inl ⟨hv, h.2⟩
  | password _ _ _ hs => exact .inl (by rw [stores_groups hs] at hp; exact hp)
  | admin hv _ _ _ hon hs =>
    rw [hs, exec_usermod] at hp
    split at hp
    · exact (mem_join.1 hp).imp_right fun h => .inr ⟨hv, hon, rfl, h⟩
    · exact .inl hp
  | notAdmin _ _ _ _ _ hs =>
    rw [hs, exec_gpasswd] at hp
    split at hp
    · exact .inl (List.mem_of_mem_filter hp)
    · exact .inl hp
  | smbDeleted _ _ _ hs => exact .inl (hdel _ _ (stores_groups hs ▸ hp))
  | deleted _ _ _ hs =>
    rw [stores_groups hs, accountDeleted, exec_deluser] at hp
    split_ifs at hp
    · exact .inl (hdel _ _ (List.mem_of_mem_filter hp))
    · exact .inl (hdel _ _ hp)
    · exact .inl (hdel _ _ hp)

end Panel
