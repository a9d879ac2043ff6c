import MyCloud.Tools.MakeShares
import MyCloud.Panel.Proof.Conf
import MyCloud.Panel.Proof.SpecUsers

/-!
# What a run of `make-shares.sh` does

* `sections_hereDoc`, `hasHeader_hereDoc`: a here-document adds one section, and only its header.
* `make_shares_ok`: the state after a run that completes, as one function of the state before it
  (`made`), and its stores one by one (`made_accounts` to `lookup_made_dirs`).
-/

set_option autoImplicit false

namespace Tools

open Shell Script Panel

/-! ## Names -/

/-- The names that `adduser` takes: `^[a-z][-a-z0-9_]*$`. -/
def validUser : Bytes → Bool
  | [] => false
  | c :: cs =>
    isLower c && cs.all fun d => isLower d || isDigit d || d = '-'.toUInt8 || d = '_'.toUInt8

theorem validUser_notMem {u : Bytes} (hu : validUser u = true) {c : UInt8}
    (hc : (isLower c || isDigit c || c = '-'.toUInt8 || c = '_'.toUInt8) = false) : c ∉ u := by
  intro h
  cases u with
  | nil => cases h
  | cons d ds =>
    rw [validUser, Bool.and_eq_true, List.all_eq_true] at hu
    rcases List.mem_cons.1 h with rfl | h
    · simp [hu.1] at hc
    · rw [hu.2 c h] at hc
      cases hc

theorem validUser_nl {u : Bytes} (hu : validUser u = true) : nl ∉ u :=
  validUser_notMem hu (by decide)

theorem validUser_close {u : Bytes} (hu : validUser u = true) : ']'.toUInt8 ∉ u :=
  validUser_notMem hu (by decide)

/-! ## Sections -/

theorem privateLines_eq (u : Bytes) : privateLines u = recycleLines ++ typeLines u .priv u := rfl

theorem privateLines_body {u : Bytes} (hu : nl ∉ u) : ∀ l ∈ privateLines u, BodyLine l := by
  intro l hl
  rw [privateLines_eq] at hl
  rcases List.mem_append.1 hl with hl | hl
  · exact recycleLines_body l hl
  · exact typeLines_body hu (fun _ => hu) l hl

theorem adminLines_body : ∀ l ∈ adminLines, BodyLine l := by decide +kernel

theorem musicLines_body : ∀ l ∈ musicLines, BodyLine l := by decide +kernel

/-- The name and the lines of a section that the script writes. -/
structure Writes (n : Bytes) (ls : List Line) : Prop where
  name : validUser n = true
  body : ∀ l ∈ ls, BodyLine l

theorem writes_private {u : Bytes} (hu : validUser u = true) : Writes u (privateLines u) :=
  ⟨hu, privateLines_body (validUser_nl hu)⟩

theorem writes_admin : Writes admin adminLines := ⟨by decide, adminLines_body⟩

theorem writes_music : Writes music musicLines := ⟨by decide, musicLines_body⟩

section
variable {n : Bytes} {ls : List Line} (h : Writes n ls) (t : Bytes)
include h

theorem sections_hereDoc : sections (t ++ hereDoc n ls) = sections t ++ [(header n, ls)] :=
  sections_block t (validUser_nl h.name) h.body

theorem lines_hereDoc : lines (t ++ hereDoc n ls) = lines (t ++ [nl]) ++ header n :: ls := by
  refine lines_append_block t fun l hl => ?_
  rcases List.mem_cons.1 hl with rfl | hl
  · exact nl_notMem_header (validUser_nl h.name)
  · exact (h.body l hl).1

/-- **The guard finds the section after the here-document, and no other one that it did not find
before.** -/
theorem hasHeader_hereDoc {m : Bytes} (hm : validUser m = true) :
    hasHeader m (t ++ hereDoc n ls) = (hasHeader m t || m = n) := by
  have hclose : (lines (t ++ [nl])).any (fun l => header m <+: l) = hasHeader m t := by
    rw [hasHeader, lines, records_close, List.any_append]
    split <;> simp [lines, header_eq]
  have hbody : ls.any (fun l => header m <+: l) = false := by
    rw [List.any_eq_false]
    intro l hl hp
    have hh := prefix_isHeader (of_decide_eq_true hp)
    rw [(h.body l hl).2.1] at hh
    cases hh
  have hhead : (header m <+: header n) = (m = n) :=
    propext (header_prefix_iff (validUser_close h.name) (validUser_close hm))
  rw [hasHeader, lines_hereDoc h, List.any_append, List.any_cons, hclose, hbody]
  simp [hhead]

end

/-! ## One command -/

/-- Every command succeeds. -/
def MakeSucceeds (e : MakeEnv) : Prop := ∀ c, e.outcome c = .ok

section
variable {e : MakeEnv} (he : MakeSucceeds e)
include he

theorem MakeSucceeds.ok (c : MakeCmd) : e.ok c = true := decide_eq_true (he c)

theorem MakeSucceeds.written (c : MakeCmd) (t : Bytes) : e.written c t = t := by
  rw [MakeEnv.written, he c]

end

/-! ## The state after a run -/

/-- `mkdir -p`, `chown` and `chmod` of a directory. -/
def owned (o mode n : Bytes) (w : World) : World :=
  (w.setDir n fun d => { d with owner := o, group := users }).setDir n fun d => { d with mode := mode }

/-- The SMB account, unless there is one. -/
def withPassword (stdin u : Bytes) (w : World) : World :=
  if u ∈ w.passdb then w
  else match newPassword stdin with
    | some p => w.setPassword u (some p)
    | none => w

def madeUser (T u : Bytes) (w : World) : World :=
  owned u (bytes "2770") u
    ((withPassword (tempInput T) u ((accountWorld u w).join u users)).makeDir u)

def madeShare (n : Bytes) (ls : List Line) (w : World) : World :=
  if hasHeader n w.smb then w else { w with smb := w.smb ++ hereDoc n ls }

/-- The fixed directories. -/
def madeDirs (w : World) : World :=
  owned alpha (bytes "2775") music (owned alpha (bytes "2770") admin
    ((w.makeDir admin).makeDir music))

/-- What is left behind by a run that completes. -/
def made (FAMILY : List Bytes) (T : Bytes) (w : World) : World :=
  madeShare music musicLines (madeShare admin adminLines
    (FAMILY.foldl (fun w u => madeShare u (privateLines u) w)
      (madeDirs ((FAMILY.foldl (fun w u => madeUser T u w) w).join alpha users))))

section
variable (w : World) (o mode n : Bytes)

@[simp] theorem makeDir_accounts : (w.makeDir n).accounts = w.accounts := by
  rw [(dirOnly_makeDir n w).1]
@[simp] theorem makeDir_groups : (w.makeDir n).groups = w.groups := by
  rw [(dirOnly_makeDir n w).1]
@[simp] theorem makeDir_passdb : (w.makeDir n).passdb = w.passdb := by
  rw [(dirOnly_makeDir n w).1]
@[simp] theorem makeDir_newUid : (w.makeDir n).newUid = w.newUid := by
  rw [(dirOnly_makeDir n w).1]
@[simp] theorem makeDir_smb : (w.makeDir n).smb = w.smb := by
  rw [(dirOnly_makeDir n w).1]

theorem owned_dirOnly : DirOnly n w (owned o mode n w) :=
  (dirOnly_setDir n w _).trans (dirOnly_setDir n _ _)

@[simp] theorem owned_accounts : (owned o mode n w).accounts = w.accounts := by
  rw [(owned_dirOnly w o mode n).1]
@[simp] theorem owned_groups : (owned o mode n w).groups = w.groups := by
  rw [(owned_dirOnly w o mode n).1]
@[simp] theorem owned_passdb : (owned o mode n w).passdb = w.passdb := by
  rw [(owned_dirOnly w o mode n).1]
@[simp] theorem owned_newUid : (owned o mode n w).newUid = w.newUid := by
  rw [(owned_dirOnly w o mode n).1]
@[simp] theorem owned_smb : (owned o mode n w).smb = w.smb := by
  rw [(owned_dirOnly w o mode n).1]

end

section
variable {e : MakeEnv} {w w' : World}

variable (he : MakeSucceeds e)
include he

theorem ensure_account_ok {u : Bytes}
    (h : (ensure (.id u) (.adduser u) ()).eval (MakeCmd.exec e) w = (.ok (), w')) :
    w' = accountWorld u w := by
  by_cases hu : u ∈ w.accounts <;>
    simpa [MakeCmd.exec, he.ok, hu, accountWorld, eq_comm] using h

theorem ensure_password_ok {u stdin : Bytes}
    (h : (ensure (.pdbeditGrep u) (.smbpasswd u stdin) ()).eval (MakeCmd.exec e) w =
      (.ok (), w')) : w' = withPassword stdin u w := by
  by_cases hu : u ∈ w.passdb
  · simpa [MakeCmd.exec, he.ok, hu, withPassword, eq_comm] using h
  · cases hp : newPassword stdin with
    | none => simp [MakeCmd.exec, he.ok, hu, hp] at h
    | some p => simpa [MakeCmd.exec, he.ok, hu, hp, withPassword, eq_comm] using h

theorem make_share_ok {n : Bytes} {ls : List Line}
    (h : (make_share n ls).eval (MakeCmd.exec e) w = (.ok (), w')) : w' = madeShare n ls w := by
  unfold make_share at h
  cases hh : hasHeader n w.smb <;>
    simpa [MakeCmd.exec, he.ok, he.written, hh, madeShare, eq_comm] using h

theorem usermod_ok {u g : Bytes}
    (h : (must (.usermod u g) ()).eval (MakeCmd.exec e) w = (.ok (), w')) :
    u ∈ w.accounts ∧ w' = w.join u g := by
  by_cases hu : u ∈ w.accounts
  · simpa [MakeCmd.exec, he.ok, hu, eq_comm] using h
  · simp [MakeCmd.exec, hu] at h

theorem mkdir_ok {ns : List Bytes}
    (h : (must (.mkdir ns) ()).eval (MakeCmd.exec e) w = (.ok (), w')) :
    w' = ns.foldl World.makeDir w := by
  simpa [MakeCmd.exec, he.ok, eq_comm] using h

theorem chown_ok {o n : Bytes}
    (h : (must (.chown o n) ()).eval (MakeCmd.exec e) w = (.ok (), w')) :
    w' = w.setDir n fun d => { d with owner := o, group := users } := by
  by_cases ho : o ∈ w.accounts
  · simpa [MakeCmd.exec, he.ok, ho, eq_comm] using h
  · simp [MakeCmd.exec, ho] at h

theorem chmod_ok {mode n : Bytes}
    (h : (must (.chmod mode n) ()).eval (MakeCmd.exec e) w = (.ok (), w')) :
    w' = w.setDir n fun d => { d with mode := mode } := by
  simpa [MakeCmd.exec, he.ok, eq_comm] using h

theorem make_user_ok {T u : Bytes}
    (h : (make_user T u).eval (MakeCmd.exec e) w = (.ok (), w')) : w' = madeUser T u w := by
  unfold make_user at h
  obtain ⟨_, w₁, h1, h⟩ := eval_bind_ok.1 h
  obtain ⟨_, w₂, h2, h⟩ := eval_bind_ok.1 h
  obtain ⟨_, w₃, h3, h⟩ := eval_bind_ok.1 h
  obtain ⟨_, w₄, h4, h⟩ := eval_bind_ok.1 h
  obtain ⟨_, w₅, h5, h6⟩ := eval_bind_ok.1 h
  have e₁ := ensure_account_ok he h1
  have e₂ := (usermod_ok he h2).2
  have e₃ := ensure_password_ok he h3
  have e₄ := mkdir_ok he h4
  have e₅ := chown_ok he h5
  have e₆ := chmod_ok he h6
  rw [e₆, e₅, e₄, e₃, e₂, e₁]
  rfl

theorem fixed_dir_ok (ha : alpha ∈ w.accounts) {n mode : Bytes}
    (h : (fixed_dir n mode).eval (MakeCmd.exec e) w = (.ok (), w')) :
    w' = owned alpha mode n w := by
  simpa [fixed_dir, MakeCmd.exec, he.ok, ha, owned, eq_comm] using h

/-- **A run that completes leaves `made`.** -/
theorem make_shares_ok {FAMILY : List Bytes} {T : Bytes}
    (h : (make_shares FAMILY T).eval (MakeCmd.exec e) w = (.ok (), w')) :
    w' = made FAMILY T w := by
  unfold make_shares at h
  obtain ⟨_, w₁, h1, h⟩ := eval_bind_ok.1 h
  obtain ⟨_, w₂, h2, h⟩ := eval_bind_ok.1 h
  obtain ⟨_, w₃, h3, h⟩ := eval_bind_ok.1 h
  obtain ⟨_, w₄, h4, h⟩ := eval_bind_ok.1 h
  obtain ⟨_, w₅, h5, h⟩ := eval_bind_ok.1 h
  obtain ⟨_, w₆, h6, h⟩ := eval_bind_ok.1 h
  obtain ⟨_, w₇, h7, h⟩ := eval_bind_ok.1 h
  obtain ⟨_, w₈, h8, h⟩ := eval_bind_ok.1 h
  obtain ⟨_, w₉, h9, h⟩ := eval_bind_ok.1 h
  have hquiet : ∀ c ∈ [MakeCmd.cp, .testparm, .reload, .pdbedit], ∀ w w',
      (must c ()).eval (MakeCmd.exec e) w = (.ok (), w') → w' = w := by
    intro c hc w w' h
    simp only [List.mem_cons, List.not_mem_nil, or_false] at hc
    rcases hc with rfl | rfl | rfl | rfl <;> simpa [MakeCmd.exec, he.ok, eq_comm] using h
  obtain ⟨_, w₁₀, h10, h⟩ := eval_bind_ok.1 h
  obtain ⟨_, w₁₁, h11, h12⟩ := eval_bind_ok.1 h
  have e₁ := hquiet _ (by simp) _ _ h1
  have e₂ := forEach_ok (fun u _ w w' => make_user_ok he) h2
  obtain ⟨ha, e₃⟩ := usermod_ok he h3
  have e₄ := mkdir_ok he h4
  have e₅ := fixed_dir_ok he (by simpa [e₄, e₃] using ha) h5
  have e₆ := fixed_dir_ok he (by simpa [e₅, e₄, e₃] using ha) h6
  have e₇ := forEach_ok (fun u _ w w' => make_share_ok he) h7
  have e₈ := make_share_ok he h8
  have e₉ := make_share_ok he h9
  rw [hquiet _ (by simp) _ _ h12, hquiet _ (by simp) _ _ h11, hquiet _ (by simp) _ _ h10,
    e₉, e₈, e₇, e₆, e₅, e₄, e₃, e₂, e₁]
  rfl

end

/-! ## The stores after a run -/

/-- An account for `u`, where `adduser` takes the uid `newUid a`. -/
def addAccount (newUid : (AList fun _ : Bytes => ℕ) → ℕ) (u : Bytes)
    (a : AList fun _ : Bytes => ℕ) : AList fun _ : Bytes => ℕ :=
  if u ∈ a then a else a.insert u (newUid a)

def addShare (n : Bytes) (ls : List Line) (t : Bytes) : Bytes :=
  if hasHeader n t then t else t ++ hereDoc n ls

section
variable (w : World) (T u : Bytes) (FAMILY : List Bytes)

theorem accountWorld_accounts :
    (accountWorld u w).accounts = addAccount w.newUid u w.accounts := by
  unfold accountWorld addAccount
  split <;> rfl

@[simp] theorem accountWorld_newUid : (accountWorld u w).newUid = w.newUid := by
  unfold accountWorld
  split <;> rfl

@[simp] theorem join_newUid (g : Bytes) : (w.join u g).newUid = w.newUid := by
  unfold World.join
  split <;> rfl

theorem withPassword_eq (stdin : Bytes) :
    withPassword stdin u w = { w with passdb := (withPassword stdin u w).passdb } := by
  unfold withPassword
  split
  · rfl
  · split <;> rfl

@[simp] theorem withPassword_accounts (stdin : Bytes) :
    (withPassword stdin u w).accounts = w.accounts := by rw [withPassword_eq]
@[simp] theorem withPassword_groups (stdin : Bytes) :
    (withPassword stdin u w).groups = w.groups := by rw [withPassword_eq]
@[simp] theorem withPassword_smb (stdin : Bytes) :
    (withPassword stdin u w).smb = w.smb := by rw [withPassword_eq]
@[simp] theorem withPassword_newUid (stdin : Bytes) :
    (withPassword stdin u w).newUid = w.newUid := by rw [withPassword_eq]
@[simp] theorem withPassword_dirs (stdin : Bytes) :
    (withPassword stdin u w).dirs = w.dirs := by rw [withPassword_eq]

theorem madeShare_eq (n : Bytes) (ls : List Line) :
    madeShare n ls w = { w with smb := addShare n ls w.smb } := by
  unfold madeShare addShare
  split <;> rfl

theorem foldl_madeUser_smb :
    (FAMILY.foldl (fun w u => madeUser T u w) w).smb = w.smb := by
  induction FAMILY generalizing w with
  | nil => rfl
  | cons u us ih =>
    rw [List.foldl_cons, ih]
    simp [madeUser]

theorem foldl_madeShare : FAMILY.foldl (fun w u => madeShare u (privateLines u) w) w =
    { w with smb := FAMILY.foldl (fun t u => addShare u (privateLines u) t) w.smb } := by
  induction FAMILY generalizing w with
  | nil => rfl
  | cons u us ih => rw [List.foldl_cons, ih, madeShare_eq, List.foldl_cons]

theorem made_eq : made FAMILY T w =
    { madeDirs ((FAMILY.foldl (fun w u => madeUser T u w) w).join alpha users) with
      smb := addShare music musicLines (addShare admin adminLines
        (FAMILY.foldl (fun t u => addShare u (privateLines u) t) w.smb)) } := by
  rw [made, foldl_madeShare, madeShare_eq, madeShare_eq]
  simp [madeDirs, foldl_madeUser_smb]

/-- **smb.conf after a run.** -/
theorem made_smb : (made FAMILY T w).smb =
    addShare music musicLines (addShare admin adminLines
      (FAMILY.foldl (fun t u => addShare u (privateLines u) t) w.smb)) := by
  rw [made_eq]

/-- **The unix accounts after a run.** -/
theorem made_accounts : (made FAMILY T w).accounts =
    FAMILY.foldl (fun a u => addAccount w.newUid u a) w.accounts := by
  rw [made_eq]
  simp only [madeDirs, owned_accounts, makeDir_accounts, join_accounts]
  induction FAMILY generalizing w with
  | nil => rfl
  | cons u us ih =>
    rw [List.foldl_cons, ih, List.foldl_cons]
    simp [madeUser, accountWorld_accounts]

/-- **The memberships after a run.** -/
theorem mem_made_groups {p : Bytes × Bytes} : p ∈ (made FAMILY T w).groups ↔
    p ∈ w.groups ∨ ∃ u ∈ alpha :: FAMILY, p = (users, u) := by
  have hfold : ∀ w : World, p ∈ (FAMILY.foldl (fun w u => madeUser T u w) w).groups ↔
      p ∈ w.groups ∨ ∃ u ∈ FAMILY, p = (users, u) := by
    intro w
    induction FAMILY generalizing w with
    | nil => simp
    | cons u us ih =>
      rw [List.foldl_cons, ih]
      simp [madeUser, mem_join, or_assoc]
  rw [made_eq]
  simp only [madeDirs, owned_groups, makeDir_groups, mem_join, hfold]
  simp only [List.mem_cons, exists_eq_or_imp]
  exact or_assoc.trans (or_congr_right or_comm)

/-- An entry that is added unless there is one. -/
theorem lookup_insert_unless {β : Type} (a : AList fun _ : Bytes => β) (k : Bytes) (b : β)
    (j : Bytes) : (if k ∈ a then a else a.insert k b).lookup j =
      (a.lookup j).or (if j = k then some b else none) := by
  by_cases hj : j = k
  · subst hj
    rw [if_pos rfl]
    split
    · rename_i hk
      obtain ⟨d, hd⟩ := Option.isSome_iff_exists.1 (AList.lookup_isSome.2 hk)
      rw [hd, Option.some_or]
    · rename_i hk
      rw [AList.lookup_insert, AList.lookup_eq_none.2 hk, Option.none_or]
  · rw [if_neg hj, Option.or_none]
    split
    · rfl
    · exact AList.lookup_insert_ne hj

theorem lookup_withPassword (stdin v : Bytes) : (withPassword stdin u w).passdb.lookup v =
    (w.passdb.lookup v).or (if v = u then (newPassword stdin).map some else none) := by
  unfold withPassword
  cases newPassword stdin with
  | none => simp
  | some p =>
    rw [apply_ite World.passdb]
    exact lookup_insert_unless w.passdb u (some p) v

/-- **The SMB accounts after a run.** -/
theorem lookup_made_passdb (v : Bytes) : (made FAMILY T w).passdb.lookup v =
    (w.passdb.lookup v).or
      (if v ∈ FAMILY then (newPassword (tempInput T)).map some else none) := by
  have hfold : ∀ w : World, (FAMILY.foldl (fun w u => madeUser T u w) w).passdb.lookup v =
      (w.passdb.lookup v).or
        (if v ∈ FAMILY then (newPassword (tempInput T)).map some else none) := by
    intro w
    induction FAMILY generalizing w with
    | nil => simp
    | cons u us ih =>
      have hl : (madeUser T u w).passdb.lookup v = (w.passdb.lookup v).or
          (if v = u then (newPassword (tempInput T)).map some else none) := by
        simp [madeUser, lookup_withPassword]
      have hq : ∀ q : Option (Option Bytes), (if v = u then q else none).or
          (if v ∈ us then q else none) = if v ∈ u :: us then q else none := by
        intro q
        by_cases hv : v = u
        · simp only [hv, if_true, List.mem_cons, true_or]
          split <;> simp
        · simp [hv]
      rw [List.foldl_cons, ih, hl, Option.or_assoc, hq]
  rw [made_eq]
  simp only [madeDirs, owned_passdb, makeDir_passdb, join_passdb, hfold]

theorem lookup_makeDir (n k : Bytes) : (w.makeDir n).dirs.lookup k = (w.dirs.lookup k).or
    (if k = n then some ⟨bytes "root", bytes "root", bytes "755"⟩ else none) := by
  unfold World.makeDir
  rw [apply_ite World.dirs]
  exact lookup_insert_unless w.dirs n _ k

theorem lookup_setDir (f : Dir → Dir) (n k : Bytes) : (w.setDir n f).dirs.lookup k =
    if k = n then (w.dirs.lookup n).map f else w.dirs.lookup k := by
  unfold World.setDir
  by_cases hk : k = n
  · subst hk
    rw [if_pos rfl]
    split
    · rename_i d hd
      rw [hd, Option.map_some, AList.lookup_insert]
    · rename_i hd
      rw [hd, Option.map_none]
  · rw [if_neg hk]
    split
    · exact AList.lookup_insert_ne hk
    · rfl

/-- A directory that exists. -/
theorem lookup_owned {n : Bytes} (hn : w.dirs.lookup n ≠ none) (o mode k : Bytes) :
    (owned o mode n w).dirs.lookup k =
      if k = n then some ⟨o, users, mode⟩ else w.dirs.lookup k := by
  obtain ⟨d, hd⟩ := Option.ne_none_iff_exists'.1 hn
  rw [owned, lookup_setDir]
  by_cases hk : k = n
  · simp [hk, lookup_setDir, hd]
  · simp [hk, lookup_setDir]

theorem lookup_madeUser_dirs (k : Bytes) : (madeUser T u w).dirs.lookup k =
    if k = u then some ⟨u, users, bytes "2770"⟩ else w.dirs.lookup k := by
  rw [madeUser, lookup_owned]
  · by_cases hk : k = u
    · simp [hk]
    · simp [hk, lookup_makeDir]
  · rw [lookup_makeDir, if_pos rfl]
    simp

theorem lookup_madeDirs (k : Bytes) : (madeDirs w).dirs.lookup k =
    if k = music then some ⟨alpha, users, bytes "2775"⟩
    else if k = admin then some ⟨alpha, users, bytes "2770"⟩
    else w.dirs.lookup k := by
  have ha : ((w.makeDir admin).makeDir music).dirs.lookup admin ≠ none := by
    simp [lookup_makeDir]
  have hm : (owned alpha (bytes "2770") admin
      ((w.makeDir admin).makeDir music)).dirs.lookup music ≠ none := by
    rw [lookup_owned _ ha, if_neg (by decide)]
    simp [lookup_makeDir]
  rw [madeDirs, lookup_owned _ hm, lookup_owned _ ha]
  by_cases h1 : k = music
  · simp [h1]
  · by_cases h2 : k = admin
    · simp [h2]
    · simp [h1, h2, lookup_makeDir]

/-- **The directories after a run.** -/
theorem lookup_made_dirs (k : Bytes) : (made FAMILY T w).dirs.lookup k =
    if k = music then some ⟨alpha, users, bytes "2775"⟩
    else if k = admin then some ⟨alpha, users, bytes "2770"⟩
    else if k ∈ FAMILY then some ⟨k, users, bytes "2770"⟩
    else w.dirs.lookup k := by
  have hfold : ∀ w : World, (FAMILY.foldl (fun w u => madeUser T u w) w).dirs.lookup k =
      if k ∈ FAMILY then some ⟨k, users, bytes "2770"⟩ else w.dirs.lookup k := by
    intro w
    induction FAMILY generalizing w with
    | nil => simp
    | cons u us ih =>
      rw [List.foldl_cons, ih, lookup_madeUser_dirs]
      by_cases hu : k = u
      · simp [hu]
      · simp [hu]
  rw [made_eq]
  simp only [lookup_madeDirs, join_dirs, hfold]

end

end Tools
