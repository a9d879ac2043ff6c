import MyCloud.Panel.Proof.Runs

/-!
# Who may remove a section

A run carries `own`: the names whose section is the private share `user-add` created for the user
of that name (`ownAfter` follows it from call to call). `KeepsSections` is the law for one call:
only `share-del` of an unprotected share, or `user-del` of the user a share was created for,
removes a section.

* `keepsSections_iff`: one call keeps the law exactly when it is not an `Oversteps`, a `user-del`
  of a name whose section was not created for that user or is protected.
* `run_keepsSections_iff`: so does a run.
* `user_del_public`: `user-del public` on the box as built removes `[public]`.
-/

set_option autoImplicit false

namespace Panel

open Shell

/-- The sections with the header `[n]`. -/
def sectionsNamed (n t : Bytes) : List (Line × List Line) :=
  (sections t).filter fun s => s.1 = header n

theorem sectionsNamed_add (k t : Bytes) {n owner : Bytes} {typ : ShareType} (hn : nl ∉ n)
    (ho : typ = .priv → nl ∉ owner) :
    sectionsNamed k t <+: sectionsNamed k (t ++ shareBlock n typ owner) := by
  unfold sectionsNamed
  rw [sections_add t hn ho, List.filter_append]
  exact List.prefix_append _ _

theorem sectionsNamed_awkDel_ne {k n : Bytes} (h : k ≠ n) (t : Bytes) :
    sectionsNamed k (awkDel n t) = sectionsNamed k t := by
  unfold sectionsNamed
  rw [sections_awkDel, List.filter_filter]
  refine List.filter_congr fun s _ => ?_
  by_cases hs : s.1 = header k
  · simp [hs, h]
  · simp [hs]

theorem sectionsNamed_awkDel (n t : Bytes) : sectionsNamed n (awkDel n t) = [] := by
  unfold sectionsNamed
  rw [sections_awkDel, List.filter_filter]
  simp

theorem sectionsNamed_of_not_hasHeader {n t : Bytes} (h : hasHeader n t = false) :
    sectionsNamed n t = [] :=
  List.filter_eq_nil_iff.2 fun s hs => by simpa using notMem_of_not_hasHeader h s hs

theorem sectionsNamed_ne_nil {n t : Bytes} (ht : ExactHeaders t) (hn : nameRe n = true)
    (h : hasHeader n t = true) : sectionsNamed n t ≠ [] := by
  obtain ⟨s, hs, hs1⟩ := (hasHeader_iff ht hn).1 h
  exact List.ne_nil_of_mem (List.mem_filter.2 ⟨hs, by simpa using hs1⟩)

/-! ## The law -/

/-- The names whose section `user-add` created for the user of that name, after a call. -/
def ownAfter (own : Bytes → Bool) (e : Env) (c : Call) (w : World) (n : Bytes) : Bool :=
  hasHeader n (c.exec e w).2.smb &&
    if hasHeader n w.smb then own n else decide (c.verb = .userAdd ∧ c.name = n)

/-- The call may remove the section `[n]`. -/
def MayRemove (own : Bytes → Bool) (e : Env) (c : Call) (w : World) (n : Bytes) : Prop :=
  c.accepted e w = true ∧ c.name = n ∧
    ((c.verb = .shareDel ∧ n ∉ PROTECTED_SHARES) ∨ (c.verb = .userDel ∧ own n = true))

structure KeepsSections (own : Bytes → Bool) (e : Env) (c : Call) (w : World) : Prop where
  kept : ∀ n, ¬ MayRemove own e c w n →
    sectionsNamed n w.smb <+: sectionsNamed n (c.exec e w).2.smb
  guarded : ∀ n ∈ PROTECTED_SHARES,
    sectionsNamed n w.smb <+: sectionsNamed n (c.exec e w).2.smb

/-- A `user-del` of a name whose section was not created for that user, or is protected. -/
def Oversteps (own : Bytes → Bool) (c : Call) (w : World) : Prop :=
  c.verb = .userDel ∧ nameRe c.name = true ∧ c.name ∉ PROTECTED_USERS ∧
    sectionsNamed c.name w.smb ≠ [] ∧ (own c.name = false ∨ c.name ∈ PROTECTED_SHARES)

instance (own : Bytes → Bool) (c : Call) (w : World) : Decidable (Oversteps own c w) :=
  inferInstanceAs (Decidable (_ ∧ _ ∧ _ ∧ _ ∧ (_ ∨ _)))

/-- `P` holds of every call of the run, with the names owned at that point. -/
def Throughout (P : (Bytes → Bool) → Env → Call → World → Prop) (own : Bytes → Bool) (w : World) :
    List (Env × Call) → Prop
  | [] => True
  | (e, c) :: cs => P own e c w ∧ Throughout P (ownAfter own e c w) (c.exec e w).2 cs

/-! ## One call -/

theorem exactHeaders_change {e : Env} {c : Call} {ok : Bool} {t t' : Bytes}
    (h : Change e c ok t t') (ht : ExactHeaders t) : ExactHeaders t' := by
  cases h with
  | refused | userAddOnly | shareDelOnly | userDelOnly | other => exact ht
  | shareAdd _ hn _ _ ho => exact exactHeaders_add ht hn fun hp => nameRe_nl (ho hp)
  | userAdd _ hn => exact exactHeaders_add ht hn fun _ => nameRe_nl hn
  | shareDel | userDel => exact exactHeaders_awkDel ht _

/-- `user-del` of a valid name that is not protected is never refused. -/
theorem userDel_accepted {e : Env} (he : Succeeds e) {c : Call} (w : World)
    (hv : c.verb = .userDel) (hn : nameRe c.name = true) (hp : c.name ∉ PROTECTED_USERS) :
    c.accepted e w = true := by
  by_contra ha
  obtain ⟨m, w', h⟩ := Call.not_accepted_iff.1 (Bool.not_eq_true _ ▸ ha)
  obtain ⟨v, args, stdin⟩ := c
  subst hv
  rcases user_del_err h with ⟨-, hp'⟩ | ⟨-, -, -, hd⟩
  · exact hp (hp' hn)
  · rw [share_del_block_eval, he.ok, he.ok] at hd
    simp only [if_true] at hd
    split at hd <;> cases hd

theorem userDel_smb {e : Env} (he : Succeeds e) {c : Call} {w : World}
    (hv : c.verb = .userDel) (hn : nameRe c.name = true) (hp : c.name ∉ PROTECTED_USERS)
    (hs : sectionsNamed c.name w.smb ≠ []) : (c.exec e w).2.smb = awkDel c.name w.smb := by
  have h := exec_change he.copies c w
  rw [userDel_accepted he w hv hn hp] at h
  generalize (c.exec e w).2.smb = t' at h
  cases h with
  | userDel => rfl
  | userDelOnly _ _ _ hg => exact absurd (sectionsNamed_of_not_hasHeader (he.greps .. ▸ hg)) hs
  | shareAdd hv' | userAdd hv' | userAddOnly hv' | shareDelOnly hv' => rw [hv] at hv'; cases hv'
  | shareDel => rfl
  | other h => exact absurd hv fun hv => h (by simp [hv])

/-- A call keeps the sections `[n]`, or it is a `share-del` or `user-del` of `n`. -/
theorem Change.kept_or {e : Env} {c : Call} {ok : Bool} {t t' : Bytes} (h : Change e c ok t t')
    (n : Bytes) : sectionsNamed n t <+: sectionsNamed n t' ∨
      (ok = true ∧ c.name = n ∧ nameRe n = true ∧
        ((c.verb = .shareDel ∧ n ∉ PROTECTED_SHARES) ∨
          (c.verb = .userDel ∧ n ∉ PROTECTED_USERS ∧ e.greps .delBlock n t = true))) := by
  cases h with
  | refused | userAddOnly | shareDelOnly | userDelOnly | other => exact .inl List.prefix_rfl
  | shareAdd _ hn _ _ ho =>
    exact .inl (sectionsNamed_add n t (nameRe_nl hn) fun hp => nameRe_nl (ho hp))
  | userAdd _ hn => exact .inl (sectionsNamed_add n t (nameRe_nl hn) fun _ => nameRe_nl hn)
  | shareDel hv hn hp =>
    by_cases hne : n = c.name
    · subst hne
      exact .inr ⟨rfl, rfl, hn, .inl ⟨hv, hp⟩⟩
    · exact .inl (sectionsNamed_awkDel_ne hne t ▸ List.prefix_rfl)
  | userDel hv hn hp hg =>
    by_cases hne : n = c.name
    · subst hne
      exact .inr ⟨rfl, rfl, hn, .inr ⟨hv, hp, hg⟩⟩
    · exact .inl (sectionsNamed_awkDel_ne hne t ▸ List.prefix_rfl)

/-- **A call keeps the law exactly when it is not an overstepping `user-del`.** -/
theorem keepsSections_iff {e : Env} (he : Succeeds e) {own : Bytes → Bool} (c : Call) {w : World}
    (ht : ExactHeaders w.smb) : KeepsSections own e c w ↔ ¬ Oversteps own c w := by
  constructor
  · rintro hk ⟨hv, hn, hp, hs, ho⟩
    have hgone : sectionsNamed c.name (c.exec e w).2.smb = [] := by
      rw [userDel_smb he hv hn hp hs, sectionsNamed_awkDel]
    have hpre : sectionsNamed c.name w.smb <+: [] := by
      rw [← hgone]
      rcases ho with ho | ho
      · refine hk.kept _ fun hm => ?_
        rcases hm.2.2 with ⟨hv', -⟩ | ⟨-, ho'⟩
        · rw [hv] at hv'; cases hv'
        · rw [ho] at ho'; cases ho'
      · exact hk.guarded _ ho
    exact hs (List.prefix_nil.1 hpre)
  · intro hno
    -- a `user-del` that removes `[n]` is of a user `[n]` was created for
    have howned : ∀ n, c.name = n → nameRe n = true → c.verb = .userDel → n ∉ PROTECTED_USERS →
        e.greps .delBlock n w.smb = true → own n = true ∧ n ∉ PROTECTED_SHARES := by
      rintro n rfl hn hv hp hg
      by_contra ho
      refine hno ⟨hv, hn, hp, sectionsNamed_ne_nil ht hn (he.greps .. ▸ hg), ?_⟩
      cases hown : own c.name
      · exact .inl rfl
      · exact .inr (by_contra fun hs => ho ⟨hown, hs⟩)
    constructor
    · intro n hm
      rcases (exec_change he.copies c w).kept_or n with h | ⟨hok, hcn, hn, ⟨hv, hp⟩ | ⟨hv, hp, hg⟩⟩
      · exact h
      · exact absurd ⟨hok, hcn, .inl ⟨hv, hp⟩⟩ hm
      · exact absurd ⟨hok, hcn, .inr ⟨hv, (howned n hcn hn hv hp hg).1⟩⟩ hm
    · intro n hprot
      rcases (exec_change he.copies c w).kept_or n with h | ⟨-, hcn, hn, ⟨-, hp⟩ | ⟨hv, hp, hg⟩⟩
      · exact h
      · exact absurd hprot hp
      · exact absurd hprot (howned n hcn hn hv hp hg).2

/-! ## Runs -/

theorem throughout_iff {P Q : (Bytes → Bool) → Env → Call → World → Prop} {cs : List (Env × Call)}
    (hcs : ∀ p ∈ cs, Succeeds p.1)
    (h : ∀ own e c w, Succeeds e → ExactHeaders w.smb → (P own e c w ↔ Q own e c w))
    {own : Bytes → Bool} {w : World} (ht : ExactHeaders w.smb) :
    Throughout P own w cs ↔ Throughout Q own w cs := by
  induction cs generalizing own w with
  | nil => exact Iff.rfl
  | cons p cs ih =>
    obtain ⟨e, c⟩ := p
    have he : Succeeds e := hcs _ List.mem_cons_self
    have ht' : ExactHeaders (c.exec e w).2.smb :=
      exactHeaders_change (exec_change he.copies c w) ht
    exact and_congr (h own e c w he ht) (ih (fun p hp => hcs p (List.mem_cons_of_mem _ hp)) ht')

/-- **A run keeps the law exactly when no call of it is an overstepping `user-del`.** -/
theorem run_keepsSections_iff (w : World) (ht : ExactHeaders w.smb) (cs : List (Env × Call))
    (hcs : ∀ p ∈ cs, Succeeds p.1) :
    Throughout KeepsSections (fun _ => false) w cs ↔
      Throughout (fun own _ c w => ¬ Oversteps own c w) (fun _ => false) w cs :=
  throughout_iff hcs (fun _ _ c _ he ht => keepsSections_iff he c ht) ht

/-- A user created with a share and deleted again, on the box as built. -/
theorem keepsSections_bob :
    Throughout KeepsSections (fun _ => false) (stage3World ∅)
      [(allOk, ⟨.userAdd, [bytes "bob"], bytes "secret\n"⟩), (allOk, ⟨.userDel, [bytes "bob"], []⟩)] :=
  (run_keepsSections_iff _ exactHeaders_stage3 _ (by simp [succeeds_allOk])).2
    ⟨by decide +kernel, by decide +kernel, trivial⟩

/-- `user-del public` on the box as built removes `[public]`. -/
theorem user_del_public :
    ¬ Throughout KeepsSections (fun _ => false) (stage3World ∅)
      [(allOk, ⟨.userDel, [bytes "public"], []⟩)] := fun h =>
  (keepsSections_iff succeeds_allOk _ exactHeaders_stage3).1 h.1 (by decide +kernel)

end Panel
