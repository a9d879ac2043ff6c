import MyCloud.Panel.Proof.Access

/-!
# Revocation

What is left of a user's rights after `user-del`. `Revoked u w`: no section of smb.conf lists `u`
and `u` is in no group but `users`.

* `revoked_user_del`: an acknowledged `user-del u` revokes, if only `[u]` listed `u` and its
  `grep`, `id` and `deluser` do their work (`Clears`).
* `revoked_exec`: every call but one that grants `u` something keeps `Revoked`.
* `revoked_run`: so after `user-del u` nothing is left until `u` is granted something again.
* `revocation_gaps`: a share of another name that `u` owned still lists `u`.
-/

set_option autoImplicit false

namespace Panel

open Shell

structure Revoked (u : Bytes) (w : World) : Prop where
  sections : ∀ s ∈ sections w.smb, u ∉ validUsers s.2
  groups : ∀ g, (g, u) ∈ w.groups → g = users

/-- Only `[u]` lists `u`, and the commands of `user-del u` that take rights away succeed. -/
structure Clears (e : Env) (u : Bytes) (w : World) : Prop where
  others : ∀ s ∈ Panel.sections w.smb, s.1 ≠ header u → u ∉ validUsers s.2
  grep : e.ok (.grepHeader .delBlock u) = true
  account : (∃ g, g ≠ users ∧ (g, u) ∈ w.groups) →
    e.ok (.id u) = true ∧ e.ok (.deluser u) = true ∧ u ∈ w.accounts

/-- The call gives `u` a share of its own, another share, or the rights of an admin. -/
def Grants (u : Bytes) (e : Env) (c : Call) (w : World) : Prop :=
  c.accepted e w = true ∧
    ((c.verb = .shareAdd ∧ c.shareType = some .priv ∧ arg c.args 2 = u) ∨
      (c.verb = .userAdd ∧ c.name = u ∧ c.withShare ∧ e.greps .verb u w.smb = false) ∨
      (c.verb = .userAdmin ∧ c.name = u ∧ arg c.args 1 = bytes "on"))

/-- No call of the run grants `u` something, and no copy of smb.conf in it stops early. -/
def NoGrants (u : Bytes) (w : World) : List (Env × Call) → Prop
  | [] => True
  | (e, c) :: cs => Copies e ∧ ¬ Grants u e c w ∧ NoGrants u (c.exec e w).2 cs

variable {e : Env} {c : Call} {u : Bytes} {w w' : World}

/-- A user named among the valid users of a new section is its owner. -/
theorem validUsers_share {n o : Bytes} {typ : ShareType} (ho : typ = .priv → nameRe o = true)
    (hu : u.head? ≠ some '@'.toUInt8) (h : u ∈ validUsers (shareLines n typ o)) :
    typ = .priv ∧ u = o := by
  cases typ with
  | priv =>
    rw [validUsers_priv n (ho rfl), List.mem_cons, List.mem_singleton] at h
    exact ⟨rfl, h.resolve_right fun h => hu (h ▸ rfl)⟩
  | family =>
    have hv : validUsers (shareLines n .family o) = [bytes "@users"] := rfl
    rw [hv, List.mem_singleton] at h
    exact absurd (h ▸ rfl) hu
  | guest =>
    have hv : validUsers (shareLines n .guest o) = [] := rfl
    rw [hv] at h
    cases h

/-- A call that grants `u` nothing leaves no new section that lists `u`. -/
theorem sections_exec (he : Copies e) (hg : ¬ Grants u e c w) (hu : u.head? ≠ some '@'.toUInt8)
    (h : ∀ s ∈ sections w.smb, u ∉ validUsers s.2) :
    ∀ s ∈ sections (c.exec e w).2.smb, u ∉ validUsers s.2 := by
  have hc := exec_change he c w
  generalize hok : c.accepted e w = ok at hc
  generalize (c.exec e w).2.smb = t' at hc
  cases hc with
  | refused | userAddOnly | shareDelOnly | userDelOnly | other => exact h
  | shareAdd hv hn _ ht ho =>
    rw [sections_add _ (nameRe_nl hn) fun hp => nameRe_nl (ho hp)]
    intro s hs hm
    rcases List.mem_append.1 hs with hs | hs
    · exact h s hs hm
    · rw [List.mem_singleton.1 hs] at hm
      obtain ⟨rfl, rfl⟩ := validUsers_share ho hu hm
      exact hg ⟨hok, .inl ⟨hv, ht, rfl⟩⟩
  | userAdd hv hn _ hs hgr =>
    rw [sections_add _ (nameRe_nl hn) fun _ => nameRe_nl hn]
    intro s hs' hm
    rcases List.mem_append.1 hs' with hs' | hs'
    · exact h s hs' hm
    · rw [List.mem_singleton.1 hs'] at hm
      obtain ⟨-, rfl⟩ := validUsers_share (fun _ => hn) hu hm
      exact hg ⟨hok, .inr (.inl ⟨hv, rfl, hs, hgr⟩)⟩
  | shareDel | userDel =>
    rw [sections_awkDel]
    exact fun s hs => h s (List.mem_of_mem_filter hs)

/-- **A call that grants `u` nothing keeps `u` revoked.** -/
theorem revoked_exec (he : Copies e) (hg : ¬ Grants u e c w) (hu : u.head? ≠ some '@'.toUInt8)
    (h : Revoked u w) : Revoked u (c.exec e w).2 where
  sections := sections_exec he hg hu h.sections
  groups := by
    intro g hm
    rcases mem_groups_of_stores (exec_stores e c w) hm with hm | ⟨-, hm⟩ | ⟨hv, hon, hok, hm⟩
    · exact h.groups g hm
    · exact (Prod.mk.inj hm).1
    · exact absurd ⟨hok, .inr (.inr ⟨hv, (Prod.mk.inj hm).2.symm, hon⟩)⟩ hg

theorem smbDeleted_core (e : Env) (u : Bytes) (w : World) :
    (smbDeleted e u w).accounts = w.accounts ∧ (smbDeleted e u w).groups = w.groups := by
  unfold smbDeleted
  split
  · rw [exec_smbpasswdDel]; split <;> exact ⟨rfl, rfl⟩
  · exact ⟨rfl, rfl⟩

/-- **An acknowledged `user-del u` revokes.** -/
theorem revoked_user_del (he : Copies e) (hv : c.verb = .userDel) (hok : c.accepted e w = true)
    (h : Clears e c.name w) : Revoked c.name (c.exec e w).2 where
  sections := by
    have hc := exec_change he c w
    rw [hok] at hc
    generalize (c.exec e w).2.smb = t' at hc
    cases hc with
    | userDel | shareDel =>
      rw [sections_awkDel]
      intro s hs
      simp only [List.mem_filter, decide_eq_true_eq] at hs
      exact h.others s hs.1 hs.2
    | userDelOnly _ _ _ hg =>
      have hh : hasHeader c.name w.smb = false := by simpa [Env.greps, h.grep] using hg
      exact fun s hs => h.others s hs (notMem_of_not_hasHeader hh s hs)
    | shareAdd hv' | userAdd hv' | userAddOnly hv' | shareDelOnly hv' => rw [hv] at hv'; cases hv'
    | other hv' => exact absurd hv fun hv => hv' (by simp [hv])
  groups := by
    have hs := exec_stores e c w
    rw [hok] at hs
    generalize (c.exec e w).2 = w' at hs
    intro g hm
    cases hs with
    | deleted _ _ _ hst =>
      obtain ⟨hacc, hgr⟩ := smbDeleted_core e c.name w
      rw [stores_groups hst, accountDeleted, exec_deluser, hacc] at hm
      by_contra hne
      have hin : (g, c.name) ∈ w.groups := by
        split_ifs at hm
        · exact hgr ▸ List.mem_of_mem_filter hm
        · exact hgr ▸ hm
        · exact hgr ▸ hm
      obtain ⟨hid, hdel, hu⟩ := h.account ⟨g, hne, hin⟩
      rw [if_pos ⟨hid, hu⟩, if_pos ⟨hdel, hu⟩] at hm
      simpa using (List.mem_filter.1 hm).2
    | same _ h' => exact absurd hv fun hv => h' rfl (by simp [hv])
    | created hv' | password hv' | admin hv' | notAdmin hv' => rw [hv] at hv'; cases hv'

theorem revoked_runCalls {cs : List (Env × Call)} (hu : u.head? ≠ some '@'.toUInt8)
    (hcs : NoGrants u w cs) (h : Revoked u w) : Revoked u (runCalls w cs) := by
  induction cs generalizing w with
  | nil => exact h
  | cons p cs ih =>
    obtain ⟨e, c⟩ := p
    exact ih hcs.2.2 (revoked_exec hcs.1 hcs.2.1 hu h)

/-- A revoked user is admitted to shares for guests and for all users only. -/
theorem Revoked.admits (h : Revoked u w) {s : Bytes} (ha : admits w u s = true) :
    ∃ sec ∈ Panel.sections w.smb, sec.1 = header s ∧
      (guestOk sec.2 = true ∨ bytes "@users" ∈ validUsers sec.2) := by
  simp only [Panel.admits, List.any_eq_true, Bool.and_eq_true, decide_eq_true_eq] at ha
  obtain ⟨sec, hsec, hs, ha⟩ := ha
  refine ⟨sec, hsec, hs, ?_⟩
  simp only [admitted, Bool.or_eq_true, List.any_eq_true] at ha
  refine ha.imp_right ?_
  rintro ⟨v, hv, hn⟩
  simp only [named, Bool.or_eq_true, Bool.and_eq_true, decide_eq_true_eq] at hn
  rcases hn with rfl | ⟨hat, hg⟩
  · exact absurd hv (h.sections sec hsec)
  · obtain ⟨r, rfl⟩ : ∃ r, v = '@'.toUInt8 :: r := by
      cases v with
      | nil => cases hat
      | cons c r => exact ⟨r, by rw [Option.some.inj hat]⟩
    obtain rfl : r = users := h.groups r hg
    exact hv

/-- **After `user-del u` nothing is left of `u`'s rights until `u` is granted something again**, and
an account `u` made in the meantime is admitted only to shares for guests and for all users. -/
theorem revoked_run (e : Env) (c : Call) (w : World) (he : Copies e) (hv : c.verb = .userDel)
    (hok : c.accepted e w = true) (hcl : Clears e c.name w) (cs : List (Env × Call))
    (hcs : NoGrants c.name (c.exec e w).2 cs) :
    let w' := runCalls (c.exec e w).2 cs
    (∀ s ∈ sections w'.smb, c.name ∉ validUsers s.2) ∧ (smbadmins, c.name) ∉ w'.groups ∧
      ∀ s, admits w' c.name s = true → ∃ sec ∈ sections w'.smb, sec.1 = header s ∧
        (guestOk sec.2 = true ∨ bytes "@users" ∈ validUsers sec.2) := by
  intro w'
  have hn : nameRe c.name = true := by
    obtain ⟨m, w₁, h⟩ := Call.accepted_iff.1 hok
    obtain ⟨v, args, stdin⟩ := c
    subst hv
    exact (user_del_ok h).1
  have h : Revoked c.name w' :=
    revoked_runCalls (nameRe_head hn) hcs (revoked_user_del he hv hok hcl)
  exact ⟨h.sections, fun hm => users_ne_smbadmins (h.groups _ hm).symm, fun s => h.admits⟩

/-- `bob` with a share is deleted and made again without one: only `[public]` is left to him. -/
theorem revoked_bob :
    let w := runCalls (stage3World ∅) [(allOk, ⟨.userAdd, [bytes "bob"], []⟩)]
    let w' := runCalls ((⟨.userDel, [bytes "bob"], []⟩ : Call).exec allOk w).2
      [(allOk, ⟨.userAdd, [bytes "bob", bytes "noshare"], []⟩)]
    (smbadmins, bytes "bob") ∉ w'.groups :=
  (revoked_run allOk ⟨.userDel, [bytes "bob"], []⟩ _ succeeds_allOk.copies rfl (by decide +kernel)
    ⟨by decide +kernel, rfl, fun _ => ⟨rfl, rfl, by decide +kernel⟩⟩
    [(allOk, ⟨.userAdd, [bytes "bob", bytes "noshare"], []⟩)]
    ⟨succeeds_allOk.copies, by unfold Grants; decide +kernel, trivial⟩).2.1

/-- What `user-del bob` does not take away: a share of another name whose owner `bob` was; and a
new account `bob` can be made an admin before it has a share. -/
theorem revocation_gaps :
    (let w := runCalls (stage3World ∅) [(allOk, ⟨.userAdd, [bytes "bob"], []⟩),
        (allOk, ⟨.shareAdd, ["pics", "private", "bob"].map bytes, []⟩)]
      let del : Call := ⟨.userDel, [bytes "bob"], []⟩
      del.accepted allOk w = true ∧
        ∃ s ∈ sections (del.exec allOk w).2.smb, bytes "bob" ∈ validUsers s.2) ∧
    (let w := runCalls (stage3World ∅) [(allOk, ⟨.userAdd, [bytes "bob"], []⟩)]
      let del : Call := ⟨.userDel, [bytes "bob"], []⟩
      del.accepted allOk w = true ∧
        (smbadmins, bytes "bob") ∈ (runCalls (del.exec allOk w).2
          [(allOk, ⟨.userAdd, [bytes "bob", bytes "noshare"], []⟩),
            (allOk, ⟨.userAdmin, [bytes "bob", bytes "on"], []⟩)]).groups) := by
  decide +kernel

end Panel
