import MyCloud.Panel.Proof.Stores
import MyCloud.Panel.Stage3

/-!
# System accounts

A system account has a uid below 1000 in the initial state `w₀`. `Spared w₀ w s`: in `w` the account
`s` is still there, and it has no SMB account, no SMB password and no membership of `users` or
`smbadmins` that it did not have in `w₀`.

* `view_exec`: a call leaves every account alone but the one it names.
* `Touches w₀ c`: the calls that reach the account they name.
* `untouched_run`: a run without them spares the system accounts.
* `touched`: each of them reaches its account when the commands succeed, up to `smbpasswd -n`.
-/

set_option autoImplicit false

namespace Panel

open Shell Script

variable {e : Env} {c : Call} {w₀ w w' : World} {s : Bytes}

/-! ## One account -/

/-- What the stores say of the account `s`. -/
def World.view (w : World) (s : Bytes) : Option ℕ × Option (Option Bytes) × List (Bytes × Bytes) :=
  (w.accounts.lookup s, w.passdb.lookup s, w.groups.filter (·.2 = s))

theorem view_of_stores (h : w'.stores = w.stores) : w'.view s = w.view s := by
  unfold World.view
  rw [stores_accounts h, stores_passdb h, stores_groups h]

theorem mem_groups_of_view (h : w'.view s = w.view s) (g : Bytes) :
    (g, s) ∈ w'.groups ↔ (g, s) ∈ w.groups := by
  have hf : w'.groups.filter (·.2 = s) = w.groups.filter (·.2 = s) := congrArg (·.2.2) h
  constructor
  · intro hm
    have hm : (g, s) ∈ w'.groups.filter (·.2 = s) := List.mem_filter.2 ⟨hm, by simp⟩
    rw [hf] at hm
    exact List.mem_of_mem_filter hm
  · intro hm
    have hm : (g, s) ∈ w.groups.filter (·.2 = s) := List.mem_filter.2 ⟨hm, by simp⟩
    rw [← hf] at hm
    exact List.mem_of_mem_filter hm

theorem view_join {u g : Bytes} (hs : s ≠ u) (w : World) : (w.join u g).view s = w.view s := by
  unfold World.join
  split
  · rfl
  · simp [World.view, List.filter_append, hs.symm]

theorem view_usermod {u g : Bytes} (hs : s ≠ u) (w : World) :
    (exec e (.usermod u g) w).2.view s = w.view s := by
  rw [exec_usermod]
  split
  · exact view_join hs w
  · rfl

theorem view_leave {u g : Bytes} (hs : s ≠ u) (w : World) : (w.leave u g).view s = w.view s := by
  have hf : (w.groups.filter (· ≠ (g, u))).filter (·.2 = s) = w.groups.filter (·.2 = s) := by
    rw [List.filter_filter]
    refine List.filter_congr fun p _ => ?_
    by_cases hp : p.2 = s
    · have : p ≠ (g, u) := by
        rintro rfl
        exact hs hp.symm
      simp [hp, this]
    · simp [hp]
  simp only [World.view, World.leave, hf]

theorem view_setPassword {u : Bytes} (hs : s ≠ u) (w : World) (p : Option Bytes) :
    (w.setPassword u p).view s = w.view s := by
  simp [World.view, World.setPassword, AList.lookup_insert_ne hs]

theorem view_accountWorld {u : Bytes} (hs : s ≠ u) (w : World) :
    (accountWorld u w).view s = w.view s := by
  unfold accountWorld
  split
  · rfl
  · simp [World.view, AList.lookup_insert_ne hs]

theorem view_joined {u : Bytes} (hs : s ≠ u) (w : World) : (joined e u w).view s = w.view s :=
  (view_usermod hs _).trans (view_accountWorld hs w)

theorem view_smbDeleted {u : Bytes} (hs : s ≠ u) (w : World) :
    (smbDeleted e u w).view s = w.view s := by
  simp only [smbDeleted, exec_smbpasswdDel]
  split_ifs
  · simp [World.view, AList.lookup_erase_ne hs]
  · rfl
  · rfl

theorem view_removeUser {u : Bytes} (hs : s ≠ u) (w : World) :
    (w.removeUser u).view s = w.view s := by
  have hf : (w.groups.filter (·.2 ≠ u)).filter (·.2 = s) = w.groups.filter (·.2 = s) := by
    rw [List.filter_filter]
    refine List.filter_congr fun p _ => ?_
    by_cases hp : p.2 = s
    · simp [hp, hs]
    · simp [hp]
  simp only [World.view, World.removeUser, hf, AList.lookup_erase_ne hs]

theorem view_accountDeleted {u : Bytes} (hs : s ≠ u) (w : World) :
    (accountDeleted e u w).view s = w.view s := by
  simp only [accountDeleted, exec_deluser]
  split_ifs
  · exact view_removeUser hs w
  · rfl
  · rfl

/-- **A call leaves every account alone but the one it names.** -/
theorem view_exec (e : Env) (w : World) (hs : s ≠ c.name) : (c.exec e w).2.view s = w.view s := by
  have h := exec_stores e c w
  generalize (c.exec e w).2 = w' at h
  generalize c.accepted e w = ok at h
  cases h with
  | same h => exact view_of_stores h
  | joined _ _ _ h => exact (view_of_stores h).trans (view_joined hs w)
  | created _ _ _ h =>
    exact (view_of_stores h).trans ((view_setPassword hs _ _).trans (view_joined hs w))
  | password _ _ _ h => exact (view_of_stores h).trans (view_setPassword hs w _)
  | admin _ _ _ _ _ h => rw [h]; exact view_usermod hs w
  | notAdmin _ _ _ _ _ h =>
    rw [h, exec_gpasswd]
    split
    · exact view_leave hs w
    · rfl
  | smbDeleted _ _ _ h => exact (view_of_stores h).trans (view_smbDeleted hs w)
  | deleted _ _ _ h =>
    exact (view_of_stores h).trans ((view_accountDeleted hs _).trans (view_smbDeleted hs w))

/-! ## The calls that reach an account -/

/-- A password of one to three bytes is refused before anything is done. -/
def TooShort (c : Call) : Prop := readPass c.stdin ≠ [] ∧ (readPass c.stdin).length < 4

instance (c : Call) : Decidable (TooShort c) := inferInstanceAs (Decidable (_ ∧ _))

/-- `s` is a system account of `w₀`. -/
def System (w₀ : World) (s : Bytes) : Prop := ∃ uid, w₀.accounts.lookup s = some uid ∧ uid < 1000

structure Spared (w₀ w : World) (s : Bytes) : Prop where
  kept : w.accounts.lookup s = w₀.accounts.lookup s
  smb : s ∈ w.passdb → s ∈ w₀.passdb
  password : ∀ p, w.passdb.lookup s = some (some p) → w₀.passdb.lookup s = some (some p)
  groups : ∀ g ∈ [users, smbadmins], (g, s) ∈ w.groups → (g, s) ∈ w₀.groups

/-- The password that `user-add` sets first: the one submitted, or the constant. -/
def Call.firstPassword (c : Call) : Bytes := c.password.getD (bytes "Temp0Pass1")

/-- The calls that give the account they name something it does not have, or delete it. -/
def Touches (w₀ : World) (c : Call) : Prop :=
  nameRe c.name = true ∧
  match c.verb with
  | .userAdd => c.name ∉ PROTECTED_USERS ∧ ¬ TooShort c ∧ ¬ ((users, c.name) ∈ w₀.groups ∧
      w₀.passdb.lookup c.name = some (some c.firstPassword))
  | .userPass => c.name ∈ w₀.passdb ∧ ¬ TooShort c ∧
      ∃ p, c.password = some p ∧ w₀.passdb.lookup c.name ≠ some (some p)
  | .userAdmin => c.name ≠ alpha ∧ arg c.args 1 = bytes "on" ∧ (smbadmins, c.name) ∉ w₀.groups
  | .userDel => c.name ∉ PROTECTED_USERS
  | _ => False

theorem user_add_short (hv : c.verb = .userAdd) (hs : TooShort c) : (c.exec e w).2 = w := by
  obtain ⟨v, args, stdin⟩ := c
  subst hv
  have hs : readPass stdin ≠ [] ∧ (readPass stdin).length < 4 := hs
  change ((user_add args stdin).eval (exec e) w).2 = w
  unfold user_add need_name
  cases nameRe (arg args 0)
  · rfl
  · simp [hs, die]

theorem user_pass_short (hv : c.verb = .userPass) (hs : TooShort c) : (c.exec e w).2 = w := by
  obtain ⟨v, args, stdin⟩ := c
  subst hv
  have hs : readPass stdin ≠ [] ∧ (readPass stdin).length < 4 := hs
  change ((user_pass args stdin).eval (exec e) w).2 = w
  unfold user_pass need_name
  cases nameRe (arg args 0)
  · rfl
  · simp [hs, die]

/-- The states `user-add` can leave behind. -/
theorem user_add_cases (e : Env) (w : World) (hv : c.verb = .userAdd) :
    (c.exec e w).2 = w ∨ (nameRe c.name = true ∧ c.name ∉ PROTECTED_USERS ∧
      ((c.exec e w).2.stores = (joined e c.name w).stores ∨
        (c.exec e w).2.stores =
          ((joined e c.name w).setPassword c.name (some c.firstPassword)).stores ∨
        (c.exec e w).2.stores = ((joined e c.name w).setPassword c.name c.password).stores)) := by
  rcases h : c.exec e w with ⟨r, w'⟩
  cases r with
  | ok m =>
    obtain ⟨hn, hp, -⟩ : nameRe c.name = true ∧ c.name ∉ PROTECTED_USERS ∧ True := by
      obtain ⟨v, args, stdin⟩ := c
      subst hv
      obtain ⟨hn, hp, -⟩ := user_add_ok h
      exact ⟨hn, hp, trivial⟩
    exact .inr ⟨hn, hp, .inr (.inr (user_add_stores hv h))⟩
  | error m =>
    obtain ⟨v, args, stdin⟩ := c
    subst hv
    rcases user_add_err h with h | ⟨hn, hp, -, h⟩
    · exact .inl h
    refine .inr ⟨hn, hp, ?_⟩
    rcases h with rfl | ⟨hb, rfl⟩ | rfl
    · exact .inl rfl
    · refine .inr (.inl ?_)
      have hb : readPass (Call.stdin ⟨.userAdd, args, stdin⟩) = [] := hb
      simp [Call.firstPassword, Call.password, hb]
    · refine .inr (.inr ?_)
      rw [shareDir_stores, userWorld, passwordWorld_eq]
      rfl

theorem stores_of_verb (h : c.verb ∉ [.userAdd, .userPass, .userAdmin, .userDel]) :
    (c.exec e w).2.stores = w.stores := by
  simp only [List.mem_cons, List.not_mem_nil, or_false, not_or] at h
  have hc := exec_stores e c w
  generalize (c.exec e w).2 = w' at hc ⊢
  generalize c.accepted e w = ok at hc
  cases hc with
  | same hs => exact hs
  | joined hv => exact absurd hv h.1
  | created hv => exact absurd hv h.1
  | password hv => exact absurd hv h.2.1
  | admin hv => exact absurd hv h.2.2.1
  | notAdmin hv => exact absurd hv h.2.2.1
  | smbDeleted hv => exact absurd hv h.2.2.2
  | deleted hv => exact absurd hv h.2.2.2

/-! ## Calls that touch no system account -/

/-- Spared, and with its SMB account if it had one. -/
structure Untouched (w₀ w : World) (s : Bytes) : Prop extends Spared w₀ w s where
  still : s ∈ w₀.passdb → s ∈ w.passdb

theorem untouched_refl (w : World) (s : Bytes) : Untouched w w s :=
  ⟨⟨rfl, id, fun _ => id, fun _ _ => id⟩, id⟩

theorem Untouched.of_view (h : Untouched w₀ w s) (hv : w'.view s = w.view s) :
    Untouched w₀ w' s := by
  have ha : w'.accounts.lookup s = w.accounts.lookup s := congrArg (·.1) hv
  have hp : w'.passdb.lookup s = w.passdb.lookup s := congrArg (·.2.1) hv
  have hm : s ∈ w'.passdb ↔ s ∈ w.passdb := by
    rw [← AList.lookup_isSome, hp, AList.lookup_isSome]
  exact ⟨⟨ha.trans h.kept, fun hs => h.smb (hm.1 hs), fun p hl => h.password p (hp ▸ hl),
    fun g hg hs => h.groups g hg ((mem_groups_of_view hv g).1 hs)⟩, fun hs => hm.2 (h.still hs)⟩

theorem Untouched.account (h : Untouched w₀ w s) (hs : System w₀ s) : s ∈ w.accounts := by
  obtain ⟨uid, hl, -⟩ := hs
  rw [← AList.lookup_isSome, h.kept, hl]
  rfl

/-- The first steps of `user-add` on an account that is a member of `users` already. -/
theorem Untouched.joined (h : Untouched w₀ w s) (hs : System w₀ s) (hg : (users, s) ∈ w₀.groups) :
    Untouched w₀ (joined e s w) s := by
  have hw : accountWorld s w = w := if_pos (h.account hs)
  have hacc : (Panel.joined e s w).accounts = w.accounts := by
    rw [Panel.joined, hw, exec_usermod]
    split
    · exact join_accounts w s users
    · rfl
  have hpass := joined_passdb e s w
  refine ⟨⟨by rw [hacc, h.kept], fun hm => h.smb (hpass ▸ hm), fun p hl => h.password p ?_,
    fun g hg' hm => ?_⟩, fun hm => ?_⟩
  · rw [hpass] at hl
    exact hl
  · rcases mem_joined.1 hm with hm | ⟨-, hm⟩
    · exact h.groups g hg' hm
    · rw [(Prod.mk.inj hm).1]
      exact hg
  · rw [hpass]
    exact h.still hm

/-- A password that gives the account nothing it had not. -/
theorem Untouched.setPassword (h : Untouched w₀ w s) (hs : s ∈ w₀.passdb) {p : Option Bytes}
    (hp : ∀ q, p = some q → w₀.passdb.lookup s = some (some q)) :
    Untouched w₀ (w.setPassword s p) s := by
  refine ⟨⟨h.kept, fun _ => hs, fun q hl => hp q ?_, h.groups⟩, fun _ => mem_setPassword w s p⟩
  rw [World.setPassword, AList.lookup_insert] at hl
  exact Option.some.inj hl

theorem Untouched.of_stores (h : Untouched w₀ w s) (hs : w'.stores = w.stores) :
    Untouched w₀ w' s := h.of_view (view_of_stores hs)

section
variable (e : Env) (hs : System w₀ c.name) (h : Untouched w₀ w c.name) (hc : ¬ Touches w₀ c)
include h hc

include hs in
theorem untouched_user_add (hv : c.verb = .userAdd) : Untouched w₀ (c.exec e w).2 c.name := by
  by_cases hshort : TooShort c
  · rw [user_add_short hv hshort]
    exact h
  rcases user_add_cases e w hv with hw | ⟨hn, hp, hst⟩
  · rw [hw]
    exact h
  have hc : (users, c.name) ∈ w₀.groups ∧
      w₀.passdb.lookup c.name = some (some c.firstPassword) := by
    by_contra hne
    exact hc ⟨hn, by rw [hv]; exact ⟨hp, hshort, hne⟩⟩
  have hj := h.joined (e := e) hs hc.1
  have hmem : c.name ∈ w₀.passdb := by
    rw [← AList.lookup_isSome, hc.2]
    rfl
  rcases hst with hst | hst | hst
  · exact hj.of_stores hst
  · refine (hj.setPassword hmem fun q hq => ?_).of_stores hst
    rw [hc.2, Option.some.inj hq]
  · refine (hj.setPassword hmem fun q hq => ?_).of_stores hst
    rw [hc.2, Call.firstPassword, hq]
    rfl

theorem untouched_user_pass (hv : c.verb = .userPass) : Untouched w₀ (c.exec e w).2 c.name := by
  by_cases hshort : TooShort c
  · rw [user_pass_short hv hshort]
    exact h
  obtain ⟨v, args, stdin⟩ := c
  subst hv
  rcases hx : Call.exec e ⟨.userPass, args, stdin⟩ w with ⟨r, w'⟩
  cases r with
  | error m =>
    rw [user_pass_err hx]
    exact h
  | ok m =>
    obtain ⟨hn, hu, rfl⟩ := user_pass_ok hx
    refine h.setPassword (h.smb hu) fun q hq => ?_
    by_contra hne
    exact hc ⟨hn, h.smb hu, hshort, q, hq, hne⟩

theorem untouched_user_admin (hv : c.verb = .userAdmin) : Untouched w₀ (c.exec e w).2 c.name := by
  obtain ⟨v, args, stdin⟩ := c
  subst hv
  rcases hx : Call.exec e ⟨.userAdmin, args, stdin⟩ w with ⟨r, w'⟩
  cases r with
  | error m =>
    rw [user_admin_err hx]
    exact h
  | ok m =>
    rcases user_admin_ok hx with ⟨hn, ha, hu, ⟨hon, rfl⟩ | ⟨-, rfl⟩⟩
    · have hg : (smbadmins, arg args 0) ∈ w₀.groups := by
        by_contra hne
        exact hc ⟨hn, ha, hon, hne⟩
      rw [exec_usermod]
      split
      · refine ⟨⟨?_, ?_, ?_, fun g hg' hm => ?_⟩, ?_⟩
        · rw [join_accounts]; exact h.kept
        · rw [join_passdb]; exact h.smb
        · rw [join_passdb]; exact h.password
        · rcases mem_join.1 hm with hm | hm
          · exact h.groups g hg' hm
          · rw [(Prod.mk.inj hm).1]
            exact hg
        · rw [join_passdb]; exact h.still
      · exact h
    · rw [exec_gpasswd]
      split
      · exact ⟨⟨h.kept, h.smb, h.password,
          fun g hg hm => h.groups g hg (List.mem_of_mem_filter hm)⟩, h.still⟩
      · exact h

theorem untouched_user_del (hv : c.verb = .userDel) : Untouched w₀ (c.exec e w).2 c.name := by
  obtain ⟨v, args, stdin⟩ := c
  subst hv
  have hp : nameRe (arg args 0) = true → arg args 0 ∈ PROTECTED_USERS := fun hn => by
    by_contra hne
    exact hc ⟨hn, hne⟩
  rcases hx : Call.exec e ⟨.userDel, args, stdin⟩ w with ⟨r, w'⟩
  cases r with
  | error m =>
    rcases user_del_err hx with ⟨rfl, -⟩ | ⟨hn, hp', -⟩
    · exact h
    · exact absurd (hp hn) hp'
  | ok m =>
    obtain ⟨hn, hp', -⟩ := user_del_ok hx
    exact absurd (hp hn) hp'

include hs in
/-- What a call does to a system account it does not touch. -/
theorem untouched_named : Untouched w₀ (c.exec e w).2 c.name := by
  by_cases hv : c.verb ∈ [.userAdd, .userPass, .userAdmin, .userDel]
  · simp only [List.mem_cons, List.not_mem_nil, or_false] at hv
    rcases hv with hv | hv | hv | hv
    · exact untouched_user_add e hs h hc hv
    · exact untouched_user_pass e h hc hv
    · exact untouched_user_admin e h hc hv
    · exact untouched_user_del e h hc hv
  · exact h.of_stores (stores_of_verb hv)

end

theorem untouched_exec (e : Env) (hs : System w₀ s) (h : Untouched w₀ w s)
    (hc : s = c.name → ¬ Touches w₀ c) : Untouched w₀ (c.exec e w).2 s := by
  by_cases hsc : s = c.name
  · subst hsc
    exact untouched_named e hs h (hc rfl)
  · exact h.of_view (view_exec e w hsc)

/-- **A run that touches no system account spares them all.** -/
theorem untouched_run {cs : List (Env × Call)}
    (hc : ∀ p ∈ cs, System w₀ p.2.name → ¬ Touches w₀ p.2) (hs : System w₀ s) :
    Untouched w₀ (runCalls w₀ cs) s := by
  refine runCalls_keeps (I := fun w => Untouched w₀ w s) (fun p hp w h => ?_) (untouched_refl w₀ s)
  exact untouched_exec p.1 hs h fun he => hc p hp (he ▸ hs)

/-! ## Calls that touch one -/

/-- Every command succeeds but `smbpasswd -n`. -/
def nullFails : Env := ⟨fun c => match c with | .smbpasswdNull _ => .fail 0 | _ => .ok, fun _ => none⟩

theorem user_add_nullFails {args : List Bytes} (stdin : Bytes) (hn : nameRe (arg args 0) = true)
    (hp : arg args 0 ∉ PROTECTED_USERS)
    (hshort : ¬ (readPass stdin ≠ [] ∧ (readPass stdin).length < 4))
    (hu : arg args 0 ∈ w.accounts) :
    ((user_add args stdin).eval (exec nullFails) w).2.stores =
      ((w.join (arg args 0) users).setPassword (arg args 0)
        (some (Call.firstPassword ⟨.userAdd, args, stdin⟩))).stores := by
  have hacc : (user_add_account (arg args 0)).eval (exec nullFails) w = (.ok (), w) := by
    rw [user_add_account_eval, if_pos (.inl ⟨rfl, hu⟩), accountWorld, if_pos hu]
  have hjoin : (exec nullFails (.usermod (arg args 0) users) w).2 = w.join (arg args 0) users := by
    rw [exec_usermod, if_pos ⟨rfl, hu⟩]
  have hshare : ∀ w₁ : World, ((user_add_share (arg args 0) (argOr args 1 (bytes "share"))).eval
      (exec nullFails) w₁).2.stores = w₁.stores := by
    intro w₁
    rw [user_add_share_eval]
    split
    · exact (share_add_block_stores rfl).trans (shareDir_stores ..)
    · rfl
  simp only [user_add, need_name, hn, if_true, pure_eq_ret, ret_bind, hshort, hp, if_false]
  rw [eval_bind, hacc]
  simp only [sh_bind, eval_call, hjoin]
  rw [eval_bind, user_add_password_eval (nl_notMem_readPass stdin)]
  by_cases hb : readPass stdin = []
  · have hnull : nullFails.ok (.smbpasswdNull (arg args 0)) = false := rfl
    have hadd : nullFails.ok (.smbpasswdAdd (arg args 0) (twice (bytes "Temp0Pass1"))) = true := rfl
    simp [hb, hnull, hadd, Call.firstPassword, Call.password]
  · have hadd : nullFails.ok (.smbpasswdAdd (arg args 0) (twice (readPass stdin))) = true := rfl
    have hfirst : Call.firstPassword ⟨.userAdd, args, stdin⟩ = readPass stdin := by
      simp [Call.firstPassword, Call.password, hb]
    simp only [ne_eq, hb, not_false_eq_true, if_true, hadd, passwordWorld, hfirst]
    rw [eval_bind, ← hshare ((w.join (arg args 0) users).setPassword (arg args 0) _)]
    rcases (user_add_share (arg args 0) (argOr args 1 (bytes "share"))).eval (exec nullFails) _
      with ⟨r | r, w₁⟩ <;> rfl

theorem user_del_nullFails {args : List Bytes} (hn : nameRe (arg args 0) = true)
    (hp : arg args 0 ∉ PROTECTED_USERS) (hu : arg args 0 ∈ w.accounts) :
    ((user_del args).eval (exec nullFails) w).2.accounts.lookup (arg args 0) = none := by
  rcases h : (user_del args).eval (exec nullFails) w with ⟨r, w'⟩
  cases r with
  | error m =>
    rcases user_del_err h with ⟨-, h⟩ | ⟨-, -, -, hb⟩
    · exact absurd (h hn) hp
    · rw [share_del_block_eval, if_pos (show nullFails.ok .mktemp = true from rfl),
        if_pos (show nullFails.ok (.testparm _) = true from rfl)] at hb
      split at hb <;> cases hb
  | ok m =>
    obtain ⟨-, -, b, w₁, hb, rfl⟩ := user_del_ok h
    have hacc : w₁.accounts = w.accounts := by
      have hs : (smbDeleted nullFails (arg args 0) w).accounts = w.accounts := by
        simp only [smbDeleted, exec_smbpasswdDel]
        split_ifs <;> rfl
      rcases share_del_block_ok.1 hb with ⟨-, -, -, -, rfl⟩ | ⟨-, -, rfl⟩ <;> exact hs
    have hu : arg args 0 ∈ w₁.accounts := hacc ▸ hu
    change (accountDeleted nullFails (arg args 0) w₁).accounts.lookup (arg args 0) = none
    rw [accountDeleted, if_pos ⟨rfl, hu⟩, exec_deluser, if_pos ⟨rfl, hu⟩]
    exact AList.lookup_erase _ _

theorem user_admin_nullFails {args : List Bytes} (hn : nameRe (arg args 0) = true)
    (ha : arg args 0 ≠ alpha) (hon : arg args 1 = bytes "on") (hu : arg args 0 ∈ w.accounts) :
    ((user_admin args).eval (exec nullFails) w).2 = w.join (arg args 0) smbadmins := by
  have hid : nullFails.ok (.id (arg args 0)) = true := rfl
  have hmod : nullFails.ok (.usermod (arg args 0) smbadmins) = true := rfl
  simp [user_admin, need_name, hn, ha, hon, hid, hu, hmod]

theorem user_pass_nullFails {args : List Bytes} {stdin : Bytes} (hn : nameRe (arg args 0) = true)
    (hshort : ¬ (readPass stdin ≠ [] ∧ (readPass stdin).length < 4)) (hb : readPass stdin ≠ [])
    (hu : arg args 0 ∈ w.passdb) :
    ((user_pass args stdin).eval (exec nullFails) w).2 =
      w.setPassword (arg args 0) (some (readPass stdin)) := by
  have hpd : arg args 0 ∈ ((exec nullFails .pdbedit w).1 : List Bytes) :=
    mem_pdbedit.2 ⟨rfl, hu⟩
  have hset : nullFails.ok (.smbpasswdSet (arg args 0) (twice (readPass stdin))) = true := rfl
  have hlen : ¬ (readPass stdin).length < 4 := fun h => hshort ⟨hb, h⟩
  simp only [user_pass, need_name, hn, if_true, pure_eq_ret, ret_bind, hlen, and_false, if_false,
    sh_bind, eval_call, hpd, pdbedit_snd, hb, ne_eq, not_false_eq_true,
    exec_smbpasswdSet nullFails w (newPassword_twice (nl_notMem_readPass stdin)), hset, hu, and_self,
    eval_ret]

/-- **A call that touches a system account reaches it.** -/
theorem touched (hs : System w₀ c.name) (h : Untouched w₀ w c.name) (hc : Touches w₀ c) :
    ¬ Spared w₀ (c.exec nullFails w).2 c.name := by
  intro hsp
  obtain ⟨hn, hc⟩ := hc
  have hu := h.account hs
  obtain ⟨v, args, stdin⟩ := c
  cases v with
  | userAdd =>
    obtain ⟨hp, hshort, hne⟩ := hc
    have hst := user_add_nullFails stdin hn hp hshort hu
    refine hne ⟨hsp.groups users (by simp) ?_, hsp.password _ ?_⟩
    · rw [Call.exec, panel_op, stores_groups hst]
      exact mem_join.2 (.inr rfl)
    · rw [Call.exec, panel_op, stores_passdb hst]
      exact AList.lookup_insert _
  | userPass =>
    obtain ⟨hm, hshort, p, hp, hne⟩ := hc
    have hb : readPass stdin ≠ [] := fun hb => by
      simp [Call.password, hb] at hp
    have hp : readPass stdin = p := by
      simpa [Call.password, hb] using hp
    have hw := user_pass_nullFails hn hshort hb (h.still hm)
    refine hne (hsp.password p ?_)
    rw [Call.exec, panel_op, hw, ← hp]
    exact AList.lookup_insert _
  | userAdmin =>
    obtain ⟨ha, hon, hne⟩ := hc
    refine hne (hsp.groups smbadmins (by simp) ?_)
    rw [Call.exec, panel_op, user_admin_nullFails hn ha hon hu]
    exact mem_join.2 (.inr rfl)
  | userDel =>
    obtain ⟨uid, hl, -⟩ := hs
    have hk := hsp.kept
    rw [Call.exec, panel_op, user_del_nullFails hn hc hu, hl] at hk
    cases hk
  | _ => exact hc

/-- **Exactly when the system accounts are out of reach**: whatever fails, every state of every run
of the calls spares them, if and only if no call touches one. -/
theorem system_accounts_iff (w₀ : World) (cs : List Call) :
    (∀ rs : List (Env × Call), rs.map (·.2) <+: cs →
      ∀ s, System w₀ s → Spared w₀ (runCalls w₀ rs) s) ↔
    ∀ c ∈ cs, System w₀ c.name → ¬ Touches w₀ c := by
  constructor
  · intro h
    induction cs using List.reverseRecOn with
    | nil => exact fun c hc => nomatch hc
    | append_singleton cs d ih =>
      have ih := ih fun rs hrs => h rs (hrs.trans (List.prefix_append _ _))
      intro c hc hs
      rcases List.mem_append.1 hc with hc | hc
      · exact ih c hc hs
      obtain rfl := List.mem_singleton.1 hc
      -- the calls before it spare the account, so the call itself does not
      intro ht
      have hbefore : Untouched w₀ (runCalls w₀ (cs.map (nullFails, ·))) c.name := by
        refine untouched_run (fun p hp => ?_) hs
        obtain ⟨d, hd, rfl⟩ := List.mem_map.1 hp
        exact ih d hd
      have hrun := h ((cs.map (nullFails, ·)) ++ [(nullFails, c)]) (by simp [Function.comp_def])
        c.name hs
      rw [runCalls_append] at hrun
      exact touched hs hbefore ht hrun
  · intro h rs hrs s hs
    refine (untouched_run (fun p hp hn => h p.2 (hrs.subset (List.mem_map_of_mem hp)) hn) hs).toSpared

/-- `games` can be deleted, and `root` made an admin. -/
theorem system_reached :
    let w₀ := stage3World ⟨(AList.singleton (bytes "root") 0).insert (bytes "games") 5, firstUid⟩
    System w₀ (bytes "games") ∧ System w₀ (bytes "root") ∧
    bytes "games" ∉ (runCalls w₀ [(allOk, ⟨.userDel, [bytes "games"], []⟩)]).accounts ∧
    (smbadmins, bytes "root") ∉ w₀.groups ∧ (smbadmins, bytes "root") ∈
      (runCalls w₀ [(allOk, ⟨.userAdmin, [bytes "root", bytes "on"], []⟩)]).groups :=
  ⟨⟨5, by decide +kernel, by decide⟩, ⟨0, by decide +kernel, by decide⟩, by decide +kernel,
    by decide +kernel, by decide +kernel⟩

end Panel
