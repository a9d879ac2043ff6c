import MyCloud.Shell.Interrupt
import MyCloud.Panel.Proof.Stores
import MyCloud.Panel.Stage3
import MyCloud.Tools.Proof.MakeShares

/-!
# `make-shares.sh` converges

* `exec_grows`: no command takes back what another one has done, so a guard that was passed stays so.
* `make_shares_resumes`: after any cut, a new run leaves smb.conf, the accounts, the groups and the
  SMB accounts as a run from the start does.
* `make_shares_converges`: the same for any number of cuts and with the directories, whose last
  owner and mode are set by every complete run.
-/

set_option autoImplicit false

namespace Tools

open Shell Script Panel

/-! ## What the guards see -/

/-- The same smb.conf, accounts, groups and SMB accounts. -/
def SameConf (w w' : World) : Prop := w.smb = w'.smb ∧ w.stores = w'.stores

theorem sameConf_equivalence : Equivalence SameConf :=
  ⟨fun _ => ⟨rfl, rfl⟩, fun h => ⟨h.1.symm, h.2.symm⟩,
    fun h h' => ⟨h.1.trans h'.1, h.2.trans h'.2⟩⟩

/-- Nothing that a guard looks for is lost. -/
structure Grows (w w' : World) : Prop where
  accounts : ∀ u ∈ w.accounts, u ∈ w'.accounts
  groups : ∀ p ∈ w.groups, p ∈ w'.groups
  passdb : ∀ u ∈ w.passdb, u ∈ w'.passdb
  headers : ∀ n, hasHeader n w.smb = true → hasHeader n w'.smb = true

theorem Grows.of_sameConf {w w' : World} (h : SameConf w w') : Grows w w' where
  accounts _ hu := stores_accounts h.2 ▸ hu
  groups _ hp := stores_groups h.2 ▸ hp
  passdb _ hu := stores_passdb h.2 ▸ hu
  headers _ hn := h.1 ▸ hn

theorem DirOnly.sameConf {n : Bytes} {w w' : World} (h : DirOnly n w w') : SameConf w' w := by
  rw [h.1]
  exact ⟨rfl, rfl⟩

/-- The commands that change directories only, or nothing. -/
def Unseen : MakeCmd → Prop
  | .adduser _ | .usermod _ _ | .smbpasswd _ _ | .cat _ => False
  | _ => True

theorem exec_unseen (e : MakeEnv) {c : MakeCmd} (hc : Unseen c) (w : World) :
    SameConf (c.exec e w).2 w := by
  have hr : SameConf w w := sameConf_equivalence.refl w
  cases c with
  | adduser | usermod | smbpasswd | cat => exact hc.elim
  | mkdir ns =>
    have hns : ∀ w, SameConf (ns.foldl World.makeDir w) w := by
      induction ns with
      | nil => exact sameConf_equivalence.refl
      | cons n ns ih =>
        intro w
        exact sameConf_equivalence.trans (ih trivial _) (DirOnly.sameConf (dirOnly_makeDir n w))
    simp only [MakeCmd.exec]
    split
    · exact hns w
    · exact hr
  | chown o n =>
    simp only [MakeCmd.exec]
    split
    · exact DirOnly.sameConf (dirOnly_setDir n w _)
    · exact hr
  | chmod mode n =>
    simp only [MakeCmd.exec]
    split
    · exact DirOnly.sameConf (dirOnly_setDir n w _)
    · exact hr
  | _ => exact hr

/-- A text that gets longer keeps its headers. -/
theorem hasHeader_append {n t : Bytes} (h : hasHeader n t = true) (u : Bytes) :
    hasHeader n (t ++ u) = true := by
  simp only [hasHeader, List.any_eq_true, decide_eq_true_eq] at h ⊢
  obtain ⟨l, hl, hp⟩ := h
  obtain ⟨i, hi⟩ := List.mem_iff_getElem?.1 hl
  obtain ⟨l', hl', hll⟩ := records_append_prefix t u hi
  exact ⟨l', List.mem_of_getElem? hl', hp.trans hll⟩

theorem exec_grows (e : MakeEnv) (c : MakeCmd) (w : World) : Grows w (c.exec e w).2 := by
  have hr : Grows w w := .of_sameConf (sameConf_equivalence.refl w)
  cases c with
  | adduser u =>
    simp only [MakeCmd.exec]
    split
    · exact { hr with accounts := fun v hv => (AList.mem_insert _).2 (.inr hv) }
    · exact hr
  | usermod u g =>
    simp only [MakeCmd.exec]
    split
    · exact ⟨by simp, fun p hp => mem_join.2 (.inl hp), by simp, by simp⟩
    · exact hr
  | smbpasswd u stdin =>
    simp only [MakeCmd.exec]
    split
    · split
      · exact { hr with passdb := fun v hv => (AList.mem_insert _).2 (.inr hv) }
      · exact hr
    · exact hr
  | cat text =>
    exact { hr with headers := fun n hn => hasHeader_append hn _ }
  | _ =>
    refine .of_sameConf (sameConf_equivalence.symm (exec_unseen e ?_ w))
    trivial

/-- A command answers and acts by what the guards see. -/
theorem exec_respects (e : MakeEnv) :
    Respects (R := fun _ => Bool) (MakeCmd.exec e) SameConf fun _ => True := by
  intro c _ w w' h
  have ha : w.accounts = w'.accounts := stores_accounts h.2
  have hg : w.groups = w'.groups := stores_groups h.2
  have hp : w.passdb = w'.passdb := stores_passdb h.2
  have hf : w.newUid = w'.newUid := stores_newUid h.2
  have hunseen : Unseen c → SameConf (c.exec e w).2 (c.exec e w').2 := fun hc =>
    sameConf_equivalence.trans (exec_unseen e hc w)
      (sameConf_equivalence.trans h (sameConf_equivalence.symm (exec_unseen e hc w')))
  cases c with
  | adduser u =>
    simp only [MakeCmd.exec, ha, hf]
    split
    · exact ⟨rfl, h.1, by simp [World.stores, hg, hp]⟩
    · exact ⟨rfl, h⟩
  | usermod u g =>
    simp only [MakeCmd.exec, ha]
    split
    · have hj : (w.join u g).groups = (w'.join u g).groups := by
        simp only [World.join, hg]
        split
        · exact hg
        · rfl
      exact ⟨rfl, by simpa using h.1, by simp [World.stores, ha, hj, hp, hf]⟩
    · exact ⟨rfl, h⟩
  | smbpasswd u stdin =>
    simp only [MakeCmd.exec]
    split
    · split
      · exact ⟨rfl, h.1, by simp [World.stores, World.setPassword, ha, hg, hp, hf]⟩
      · exact ⟨rfl, h⟩
    · exact ⟨rfl, h⟩
  | cat text => exact ⟨rfl, by simp [MakeCmd.exec, h.1], h.2⟩
  | id u => exact ⟨by simp [MakeCmd.exec, ha], hunseen trivial⟩
  | pdbeditGrep u => exact ⟨by simp [MakeCmd.exec, hp], hunseen trivial⟩
  | grep n => exact ⟨by simp [MakeCmd.exec, h.1], hunseen trivial⟩
  | chown o n =>
    refine ⟨?_, hunseen trivial⟩
    simp only [MakeCmd.exec, ha]
    split <;> rfl
  | mkdir ns | chmod mode n =>
    refine ⟨?_, hunseen trivial⟩
    simp only [MakeCmd.exec]
    split <;> rfl
  | cp | testparm | reload | pdbedit => exact ⟨rfl, h⟩

/-! ## The steps of the script -/

/-- What grows with the stores is stable. -/
theorem stable_of_grows (e : MakeEnv) {D : World → Prop} (hD : ∀ w w', Grows w w' → D w → D w') :
    Stable (R := fun _ => Bool) (MakeCmd.exec e) SameConf (fun _ => True) D :=
  ⟨fun c _ w => hD _ _ (exec_grows e c w), fun _ _ h => hD _ _ (.of_sameConf h)⟩

section
variable {e : MakeEnv}

/-- A step of the script that does `D`. -/
abbrev Step (e : MakeEnv) (D : World → Prop) (p : Make Unit) : Prop :=
  Resumable (MakeCmd.exec e) SameConf (fun _ => True) D p

theorem Step.seq {p q : Make Unit} {D E : World → Prop} (hp : Step e D p) (hq : Step e E q) :
    Step e (fun w => D w ∧ E w) (p >>= fun _ => q) :=
  Resumable.seq sameConf_equivalence (exec_respects e) hp hq

theorem Step.forEach {f : Bytes → Make Unit} {D : Bytes → World → Prop} {us : List Bytes}
    (h : ∀ u ∈ us, Step e (D u) (f u)) : Step e (fun w => ∀ u ∈ us, D u w) (forEach f us) :=
  Resumable.forEach sameConf_equivalence (exec_respects e) h

/-- A command that always succeeds and that no guard sees. -/
theorem step_unseen {c : MakeCmd} (hc : Unseen c) (hok : ∀ w, (c.exec e w).1 = true) :
    Step e (fun _ => True) (must c ()) := by
  refine Resumable.unseen sameConf_equivalence (exec_respects e) (uses_true _) ?_ fun w => ?_
  · exact (uses_must c ()).2 (exec_unseen e hc)
  · rw [eval_must, if_pos (hok w)]

variable (he : MakeSucceeds e)
include he

theorem step_account (u : Bytes) :
    Step e (fun w => u ∈ w.accounts) (ensure (.id u) (.adduser u) ()) := by
  refine Resumable.ensure sameConf_equivalence () trivial trivial
    (stable_of_grows e fun w w' h => h.accounts u) (fun w => ⟨rfl, ?_⟩) (fun w h => ?_) fun w h => ?_
  · simp [MakeCmd.exec, he.ok]
  · by_cases hu : u ∈ w.accounts
    · simp [MakeCmd.exec, hu]
    · simp [MakeCmd.exec, he.ok, hu] at h
  · by_cases hu : u ∈ w.accounts
    · simp [MakeCmd.exec, hu] at h
    · simp [MakeCmd.exec, he.ok, hu]

theorem step_usermod (u g : Bytes) :
    Step e (fun w => u ∈ w.accounts ∧ (g, u) ∈ w.groups) (must (.usermod u g) ()) := by
  refine Resumable.must sameConf_equivalence () trivial
    (stable_of_grows e fun w w' h hD => ⟨h.accounts u hD.1, h.groups _ hD.2⟩)
    (fun w h => ?_) (fun w h => ?_) fun w h => ?_
  · by_cases hu : u ∈ w.accounts
    · simp [MakeCmd.exec, he.ok, hu] at h
    · simp [MakeCmd.exec, hu]
  · by_cases hu : u ∈ w.accounts
    · simp [MakeCmd.exec, he.ok, hu, mem_join]
    · simp [MakeCmd.exec, hu] at h
  · simp only [MakeCmd.exec, he.ok, h.1, and_self, if_true, World.join, h.2]
    exact ⟨trivial, sameConf_equivalence.refl w⟩

theorem step_password (u stdin : Bytes) :
    Step e (fun w => u ∈ w.passdb) (ensure (.pdbeditGrep u) (.smbpasswd u stdin) ()) := by
  refine Resumable.ensure sameConf_equivalence () trivial trivial
    (stable_of_grows e fun w w' h => h.passdb u) (fun w => ⟨rfl, ?_⟩) (fun w h => ?_) fun w h => ?_
  · simp [MakeCmd.exec, he.ok]
  · cases hp : newPassword stdin with
    | none => simp only [MakeCmd.exec, hp]
    | some p => simp [MakeCmd.exec, hp, he.ok] at h
  · cases hp : newPassword stdin with
    | none => simp [MakeCmd.exec, hp] at h
    | some p => simp [MakeCmd.exec, hp, he.ok]

theorem step_chown (o n : Bytes) :
    Step e (fun w => o ∈ w.accounts) (must (.chown o n) ()) := by
  refine Resumable.must sameConf_equivalence () trivial
    (stable_of_grows e fun w w' h => h.accounts o) (fun w h => ?_) (fun w h => ?_) fun w h => ?_
  · by_cases ho : o ∈ w.accounts
    · simp [MakeCmd.exec, he.ok, ho] at h
    · simp [MakeCmd.exec, ho]
  · by_cases ho : o ∈ w.accounts
    · exact (exec_grows e _ w).accounts o ho
    · simp [MakeCmd.exec, ho] at h
  · exact ⟨by simp [MakeCmd.exec, he.ok, h], exec_unseen e (c := .chown o n) trivial w⟩

theorem step_share {n : Bytes} {ls : List Line} (h : Writes n ls) :
    Step e (fun w => hasHeader n w.smb = true) (make_share n ls) := by
  refine Resumable.ensure sameConf_equivalence () trivial trivial
    (stable_of_grows e fun w w' h => h.headers n) (fun w => ⟨rfl, ?_⟩) (fun w h => ?_) fun w _ => ?_
  · simp [MakeCmd.exec, he.ok]
  · simp [MakeCmd.exec, he.ok] at h
  · simp [MakeCmd.exec, he.written, hasHeader_hereDoc h w.smb h.name]

theorem step_user (T u : Bytes) :
    Step e (fun w => u ∈ w.accounts ∧ (users, u) ∈ w.groups ∧ u ∈ w.passdb) (make_user T u) := by
  have h := (step_account he u).seq <| (step_usermod he u users).seq <|
    (step_password he u (tempInput T)).seq <|
    (step_unseen (c := .mkdir [u]) trivial fun w => by simp [MakeCmd.exec, he.ok]).seq <|
    (step_chown he u u).seq <|
    step_unseen (c := .chmod (bytes "2770") u) trivial fun w => by simp [MakeCmd.exec, he.ok]
  exact h.of_iff fun w => by tauto

theorem step_fixed_dir (n mode : Bytes) : Step e (fun _ => True) (fixed_dir n mode) := by
  refine Resumable.unseen sameConf_equivalence (exec_respects e) (uses_true _) ?_ fun w => ?_
  · unfold fixed_dir
    rw [sh_bind, uses_call]
    refine ⟨exec_unseen e (c := .chown alpha n) trivial, fun r => ?_⟩
    rw [uses_ite]
    exact ⟨fun _ => (uses_must _ ()).2 (exec_unseen e (c := .chmod mode n) trivial),
      fun _ => uses_ret ()⟩
  · by_cases ha : alpha ∈ w.accounts <;> simp [fixed_dir, MakeCmd.exec, he.ok, ha]

/-- **After any cut, a new run ends as a run from the start.** -/
theorem make_shares_resumes {FAMILY : List Bytes} (hF : ∀ u ∈ FAMILY, validUser u = true)
    (T : Bytes) : Resumes (MakeCmd.exec e) SameConf (make_shares FAMILY T) := by
  have h := (step_unseen (e := e) (c := .cp) trivial fun w => by simp [MakeCmd.exec, he.ok]).seq <|
    (@Step.forEach e _ _ FAMILY fun u _ => step_user he T u).seq <|
    (step_usermod he alpha users).seq <|
    (step_unseen (c := .mkdir [admin, music]) trivial fun w => by
      simp [MakeCmd.exec, he.ok]).seq <|
    (step_fixed_dir he admin (bytes "2770")).seq <|
    (step_fixed_dir he music (bytes "2775")).seq <|
    (@Step.forEach e _ _ FAMILY fun u hu => step_share he (writes_private (hF u hu))).seq <|
    (step_share he writes_admin).seq <| (step_share he writes_music).seq <|
    (step_unseen (c := .testparm) trivial fun _ => he.ok _).seq <|
    (step_unseen (c := .reload) trivial fun _ => he.ok _).seq <|
    step_unseen (c := .pdbedit) trivial fun _ => he.ok _
  exact h.resumes

/-! ## Every store -/

/-- The same smb.conf, accounts, memberships and SMB accounts, and directories with the same owners
and modes. -/
structure SameStores (w w' : World) : Prop where
  smb : w.smb = w'.smb
  accounts : w.accounts = w'.accounts
  groups : w.groups = w'.groups
  passdb : w.passdb = w'.passdb
  dirs : ∀ n, w.dirs.lookup n = w'.dirs.lookup n

omit he in
/-- The commands that leave the directory `n` alone. -/
def Spares (n : Bytes) : MakeCmd → Prop
  | .mkdir ns => n ∉ ns
  | .chown _ m | .chmod _ m => n ≠ m
  | _ => True

omit he in
theorem exec_spares {n : Bytes} {c : MakeCmd} (hc : Spares n c) (w : World) :
    (c.exec e w).2.dirs.lookup n = w.dirs.lookup n := by
  cases c with
  | adduser u | usermod u g =>
    simp only [MakeCmd.exec]
    split <;> simp
  | smbpasswd u stdin =>
    simp only [MakeCmd.exec]
    split
    · split <;> rfl
    · rfl
  | mkdir ns =>
    have hns : ∀ w : World, (ns.foldl World.makeDir w).dirs.lookup n = w.dirs.lookup n := by
      induction ns with
      | nil => exact fun _ => rfl
      | cons m ns ih =>
        intro w
        obtain ⟨hm, hns⟩ : n ≠ m ∧ n ∉ ns := by simpa [Spares] using hc
        rw [List.foldl_cons, ih hns, lookup_makeDir, if_neg hm, Option.or_none]
    simp only [MakeCmd.exec]
    split
    · exact hns w
    · rfl
  | chown o m | chmod mode m =>
    simp only [MakeCmd.exec]
    split
    · rw [lookup_setDir, if_neg hc]
    · rfl
  | _ => rfl

omit he in
theorem make_shares_spares {FAMILY : List Bytes} {n : Bytes} (hF : n ∉ FAMILY) (ha : n ≠ admin)
    (hm : n ≠ music) (T : Bytes) : (make_shares FAMILY T).Uses (Spares n) := by
  have hmust : ∀ {c}, Spares n c → (must c () : Make Unit).Uses (Spares n) := fun {c} hc =>
    (uses_must c ()).2 hc
  have hshare : ∀ m ls, (make_share m ls).Uses (Spares n) := fun m ls =>
    (uses_ensure _ _ ()).2 ⟨trivial, trivial⟩
  have hfixed : ∀ m mode, n ≠ m → (fixed_dir m mode).Uses (Spares n) := by
    intro m mode hm
    unfold fixed_dir
    rw [sh_bind, uses_call]
    refine ⟨hm, fun r => ?_⟩
    rw [uses_ite]
    exact ⟨fun _ => hmust hm, fun _ => uses_ret ()⟩
  have huser : ∀ u ∈ FAMILY, (make_user T u).Uses (Spares n) := by
    intro u hu
    have hne : n ≠ u := fun h => hF (h ▸ hu)
    refine uses_bind ((uses_ensure _ _ ()).2 ⟨trivial, trivial⟩) fun _ => ?_
    refine uses_bind (hmust trivial) fun _ => ?_
    refine uses_bind ((uses_ensure _ _ ()).2 ⟨trivial, trivial⟩) fun _ => ?_
    refine uses_bind (hmust (c := .mkdir [u]) (by simpa [Spares] using hne)) fun _ => ?_
    exact uses_bind (hmust hne) fun _ => hmust hne
  refine uses_bind (hmust trivial) fun _ => ?_
  refine uses_bind (uses_forEach huser) fun _ => ?_
  refine uses_bind (hmust trivial) fun _ => ?_
  refine uses_bind (hmust (c := .mkdir [admin, music]) (by simp [Spares, ha, hm])) fun _ => ?_
  refine uses_bind (hfixed _ _ ha) fun _ => ?_
  refine uses_bind (hfixed _ _ hm) fun _ => ?_
  refine uses_bind (uses_forEach fun u _ => hshare _ _) fun _ => ?_
  refine uses_bind (hshare _ _) fun _ => ?_
  refine uses_bind (hshare _ _) fun _ => ?_
  refine uses_bind (hmust trivial) fun _ => ?_
  exact uses_bind (hmust trivial) fun _ => hmust trivial

omit he in
theorem sections_addShare {n : Bytes} {ls : List Line} (h : Writes n ls) (t : Bytes) :
    sections t <+: sections (addShare n ls t) := by
  unfold addShare
  split
  · exact List.prefix_rfl
  · rw [sections_hereDoc h]
    exact List.prefix_append _ _

omit he in
theorem sections_made {FAMILY : List Bytes} (hF : ∀ u ∈ FAMILY, validUser u = true) (T : Bytes)
    (w : World) : sections w.smb <+: sections (made FAMILY T w).smb := by
  have hfold : ∀ t, sections t <+:
      sections (FAMILY.foldl (fun t u => addShare u (privateLines u) t) t) := by
    induction FAMILY with
    | nil => exact fun _ => List.prefix_rfl
    | cons u us ih =>
      intro t
      exact (sections_addShare (writes_private (hF u List.mem_cons_self)) t).trans
        (ih (fun v hv => hF v (List.mem_cons_of_mem _ hv)) _)
  rw [made_smb]
  exact ((hfold _).trans (sections_addShare writes_admin _)).trans
    (sections_addShare writes_music _)

omit he in
/-- Runs that are cut off leave the other directories alone. -/
theorem lookup_cuts_dirs {FAMILY : List Bytes} {n : Bytes} (hn : n ∉ FAMILY) (ha : n ≠ admin)
    (hm : n ≠ music) (T : Bytes) (ns : List ℕ) (w : World) :
    (cuts (MakeCmd.exec e) (make_shares FAMILY T) ns w).dirs.lookup n = w.dirs.lookup n :=
  cuts_keeps (I := fun w₁ => w₁.dirs.lookup n = w.dirs.lookup n) (make_shares_spares hn ha hm T)
    (fun _ hc w₁ h₁ => (exec_spares hc w₁).trans h₁) ns rfl

omit he in
/-- A complete run sets its own directories, whatever they were. -/
theorem made_dirs_congr {FAMILY : List Bytes} (T : Bytes) {w w' : World}
    (h : ∀ n, n ∉ FAMILY → n ≠ admin → n ≠ music → w.dirs.lookup n = w'.dirs.lookup n)
    (n : Bytes) : (made FAMILY T w).dirs.lookup n = (made FAMILY T w').dirs.lookup n := by
  rw [lookup_made_dirs, lookup_made_dirs]
  split_ifs with hm ha hn
  · rfl
  · rfl
  · rfl
  · exact h n hn ha hm

/-- **`make-shares.sh` converges**: after runs that were cut off anywhere, a run that completes leaves
the stores as one run from the start; one more changes nothing, and no section or password that was
there is touched. -/
theorem make_shares_converges {FAMILY : List Bytes} (hF : ∀ u ∈ FAMILY, validUser u = true)
    (T : Bytes) (w : World) (ns : List ℕ) {w' : World}
    (h : (make_shares FAMILY T).eval (MakeCmd.exec e)
      (cuts (MakeCmd.exec e) (make_shares FAMILY T) ns w) = (.ok (), w')) :
    (∃ w₁, (make_shares FAMILY T).eval (MakeCmd.exec e) w = (.ok (), w₁) ∧ SameStores w' w₁) ∧
    (∃ w₂, (make_shares FAMILY T).eval (MakeCmd.exec e) w' = (.ok (), w₂) ∧ SameStores w₂ w') ∧
    sections w.smb <+: sections w'.smb ∧
    ∀ u ∈ w.passdb, w'.passdb.lookup u = w.passdb.lookup u := by
  have hres := make_shares_resumes he hF T
  have hmade := make_shares_ok he h
  -- the run from the start
  obtain ⟨w₁, he₁, hs₁⟩ : ∃ w₁, (make_shares FAMILY T).eval (MakeCmd.exec e) w = (.ok (), w₁) ∧
      SameConf w' w₁ := by
    obtain ⟨h1, h2⟩ := resumes_runs sameConf_equivalence hres ns w
    rw [h] at h1 h2
    exact ⟨_, eq_of_answer h1.symm, h2⟩
  have hmade₁ := make_shares_ok he he₁
  have hdirs₁ : ∀ n, w'.dirs.lookup n = w₁.dirs.lookup n := by
    rw [hmade, hmade₁]
    exact made_dirs_congr T fun n hn ha hm => lookup_cuts_dirs hn ha hm T ns w
  -- one more run
  obtain ⟨w₂, he₂, hs₂⟩ : ∃ w₂, (make_shares FAMILY T).eval (MakeCmd.exec e) w' = (.ok (), w₂) ∧
      SameConf w₂ w' := by
    obtain ⟨h1, h2⟩ := resumes_again hres (cuts (MakeCmd.exec e) (make_shares FAMILY T) ns w)
    rw [h] at h1 h2
    exact ⟨_, eq_of_answer h1, h2⟩
  have hmade₂ := make_shares_ok he he₂
  have hdirs₂ : ∀ n, w₂.dirs.lookup n = w'.dirs.lookup n := by
    rw [hmade₂]
    nth_rewrite 2 [hmade]
    refine made_dirs_congr T fun n hn ha hm => ?_
    rw [hmade, lookup_made_dirs, if_neg hm, if_neg ha, if_neg hn]
  have hsame : ∀ {w w' : World}, SameConf w w' → (∀ n, w.dirs.lookup n = w'.dirs.lookup n) →
      SameStores w w' := fun hs hd =>
    ⟨hs.1, stores_accounts hs.2, stores_groups hs.2, stores_passdb hs.2, hd⟩
  refine ⟨⟨w₁, he₁, hsame hs₁ hdirs₁⟩, ⟨w₂, he₂, hsame hs₂ hdirs₂⟩, ?_, fun u hu => ?_⟩
  · rw [hs₁.1, hmade₁]
    exact sections_made hF T w
  · rw [stores_passdb hs₁.2, hmade₁, lookup_made_passdb]
    obtain ⟨q, hq⟩ := Option.isSome_iff_exists.1 (AList.lookup_isSome.2 hu)
    rw [hq, Option.some_or]

end

/-- Two runs that were cut off, on the box as stage 3 leaves it. -/
theorem make_shares_converges_bob :
    let exec := MakeCmd.exec ⟨fun _ => .ok⟩
    let p := make_shares ([bytes "bob", music, bytes "bob"]) (bytes "CHANGE_ME_temp_password")
    let w := stage3World ∅
    let w' := (p.eval exec (cuts exec p [4, 19] w)).2
    (∃ w₁, p.eval exec w = (.ok (), w₁) ∧ SameStores w' w₁) ∧
    (∃ w₂, p.eval exec w' = (.ok (), w₂) ∧ SameStores w₂ w') ∧
    sections w.smb <+: sections w'.smb ∧
    ∀ u ∈ w.passdb, w'.passdb.lookup u = w.passdb.lookup u :=
  make_shares_converges (fun _ => rfl) (by decide) (bytes "CHANGE_ME_temp_password")
    (stage3World ∅) [4, 19] (eq_of_answer (by decide +kernel))

end Tools
