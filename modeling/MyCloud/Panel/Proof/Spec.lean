import MyCloud.Panel.Op
import MyCloud.Panel.Proof.Conf

/-!
# What the share verbs do

One lemma for each helper and each verb, in every environment: the helpers as equations
(`*_eval`), the verbs as what an OK reply implies (`*_ok`) and what an ERR reply implies
(`*_err`). Later proofs cite these and unfold no script.
-/

set_option autoImplicit false

namespace Panel

open Shell Script

variable {e : Env} {w w' : World} {args : List Bytes} {stdin m : Bytes}

/-! ## Stores -/

/-- The state after the `mkdir`, `chown`, `chmod` of a share's directory. -/
def shareDir (e : Env) (o mode n : Bytes) (w : World) : World :=
  (exec e (.chmod mode n) (exec e (.chown o n) (exec e (.mkdir n) w).2).2).2

/-- `w'` is `w` but for the directory `n`. -/
def DirOnly (n : Bytes) (w w' : World) : Prop :=
  w' = { w with dirs := w'.dirs } ∧ ∀ k ≠ n, w'.dirs.lookup k = w.dirs.lookup k

theorem DirOnly.refl (n : Bytes) (w : World) : DirOnly n w w := ⟨rfl, fun _ _ => rfl⟩

theorem DirOnly.trans {n : Bytes} {w₁ w₂ w₃ : World} (h₁ : DirOnly n w₁ w₂)
    (h₂ : DirOnly n w₂ w₃) : DirOnly n w₁ w₃ := by
  refine ⟨?_, fun k hk => (h₂.2 k hk).trans (h₁.2 k hk)⟩
  rw [h₂.1, h₁.1]

theorem dirOnly_insert (n : Bytes) (w : World) (d : Dir) :
    DirOnly n w { w with dirs := w.dirs.insert n d } :=
  ⟨rfl, fun _ hk => AList.lookup_insert_ne hk⟩

theorem dirOnly_setDir (n : Bytes) (w : World) (f : Dir → Dir) : DirOnly n w (w.setDir n f) := by
  unfold World.setDir
  split
  · exact dirOnly_insert n w _
  · exact .refl n w

theorem dirOnly_makeDir (n : Bytes) (w : World) : DirOnly n w (w.makeDir n) := by
  unfold World.makeDir
  split
  · exact .refl n w
  · exact dirOnly_insert n w _

theorem shareDir_dirOnly (e : Env) (o mode n : Bytes) (w : World) :
    DirOnly n w (shareDir e o mode n w) := by
  have h₁ : ∀ w, DirOnly n w (exec e (.mkdir n) w).2 := by
    intro w
    simp only [exec]
    split
    · exact dirOnly_makeDir n w
    · exact .refl n w
  have h₂ : ∀ w, DirOnly n w (exec e (.chown o n) w).2 := by
    intro w
    simp only [exec]
    split
    · exact dirOnly_setDir n w _
    · exact .refl n w
  have h₃ : ∀ w, DirOnly n w (exec e (.chmod mode n) w).2 := by
    intro w
    simp only [exec]
    split
    · exact dirOnly_setDir n w _
    · exact .refl n w
  exact ((h₁ _).trans (h₂ _)).trans (h₃ _)

@[simp] theorem shareDir_smb (e : Env) (o mode n : Bytes) (w : World) :
    (shareDir e o mode n w).smb = w.smb := by rw [(shareDir_dirOnly e o mode n w).1]

theorem share_dir_ok {o mode n : Bytes} {r : Unit} :
    (share_dir o mode n).eval (exec e) w = (.ok r, w') ↔ w' = shareDir e o mode n w := by
  have : (share_dir o mode n).eval (exec e) w = (.ok (), shareDir e o mode n w) := rfl
  simp [this, eq_comm]

theorem share_dir_err {o mode n : Bytes} :
    (share_dir o mode n).eval (exec e) w ≠ (.error m, w') := by
  have : (share_dir o mode n).eval (exec e) w = (.ok (), shareDir e o mode n w) := rfl
  simp [this]

theorem need_name_ok {a : Bytes} {r : Unit} :
    (need_name a).eval (exec e) w = (.ok r, w') ↔ nameRe a = true ∧ w' = w := by
  unfold need_name
  cases nameRe a <;> simp [eq_comm]

theorem need_name_err {a : Bytes} :
    (need_name a).eval (exec e) w = (.error m, w') ↔
      nameRe a = false ∧ w' = w ∧
        m = bytes "invalid name '" ++ a ++ bytes "' (lowercase letters+digits, 2-16 chars)" := by
  unfold need_name
  cases nameRe a <;> simp [eq_comm, and_comm]

/-! ## The writers of smb.conf -/

/-- How many of the `len` bytes of its text the command writes. -/
def Env.reaches (e : Env) (c : Cmd) (len : ℕ) : ℕ :=
  match e.outcome c with
  | .ok => len
  | .fail k => min k len
  | .unopened => 0

theorem written_eq (e : Env) (c : Cmd) (t : Bytes) :
    e.written c t = t.take (e.reaches c t.length) := by
  cases h : e.outcome c <;> simp [Env.written, Env.reaches, h]

theorem reaches_le (e : Env) (c : Cmd) (len : ℕ) : e.reaches c len ≤ len := by
  unfold Env.reaches
  split <;> omega

/-- The temporary file of `share_add_block`, before the gate. -/
def addTmp (e : Env) (n : Bytes) (typ : ShareType) (owner smb : Bytes) : Bytes :=
  e.written .catConf smb ++
    e.written (.append (e.written .catConf smb) (shareBlock n typ owner)) (shareBlock n typ owner)

/-- smb.conf after the write-back of `share_add_block`. -/
def addConf (e : Env) (n : Bytes) (typ : ShareType) (owner smb : Bytes) : Bytes :=
  e.copiedBack (addTmp e n typ owner smb) smb

/-- The temporary file of `share_del_block`, before the gate. -/
def delTmp (e : Env) (n smb : Bytes) : Bytes := e.written (.awkDel n) (awkDel n smb)

/-- smb.conf after the write-back of `share_del_block`. -/
def delConf (e : Env) (n smb : Bytes) : Bytes :=
  e.copiedBack (delTmp e n smb) smb

/-- What the `grep` for a header answers. -/
def Env.greps (e : Env) (by_ : Caller) (n smb : Bytes) : Bool :=
  e.ok (.grepHeader by_ n) && hasHeader n smb

theorem share_add_block_eval (n : Bytes) (typ : ShareType) (owner : Bytes) :
    (share_add_block n typ owner).eval (exec e) w =
      if e.ok .mktemp then
        if e.ok (.testparm (addTmp e n typ owner w.smb)) then
          (.ok (), { w with smb := addConf e n typ owner w.smb })
        else (.error (bytes "testparm rejected new share config"), w)
      else (.error (bytes "mktemp"), w) := by
  simp [share_add_block, die, addConf, addTmp]
  rfl

theorem share_del_block_eval (n : Bytes) :
    (share_del_block n).eval (exec e) w =
      if e.greps .delBlock n w.smb then
        if e.ok .mktemp then
          if e.ok (.testparm (delTmp e n w.smb)) then
            (.ok true, { w with smb := delConf e n w.smb })
          else (.error (bytes "testparm rejected config after removal"), w)
        else (.error (bytes "mktemp"), w)
      else (.ok false, w) := by
  simp [share_del_block, die, delConf, delTmp, Env.greps]
  rfl

theorem share_add_block_ok {n : Bytes} {typ : ShareType} {owner : Bytes} {r : Unit} :
    (share_add_block n typ owner).eval (exec e) w = (.ok r, w') ↔
      e.ok .mktemp = true ∧ e.ok (.testparm (addTmp e n typ owner w.smb)) = true ∧
        w' = { w with smb := addConf e n typ owner w.smb } := by
  rw [share_add_block_eval]
  cases e.ok .mktemp <;> cases e.ok (.testparm (addTmp e n typ owner w.smb)) <;> simp [eq_comm]

/-- A refused edit changes nothing, and a command has failed. -/
theorem share_add_block_err {n : Bytes} {typ : ShareType} {owner : Bytes}
    (h : (share_add_block n typ owner).eval (exec e) w = (.error m, w')) :
    w' = w ∧ ∃ k, e.ok k = false := by
  rw [share_add_block_eval] at h
  split at h
  · split at h
    · cases h
    · rename_i ht
      exact ⟨(congrArg Prod.snd h).symm, _, by simpa using ht⟩
  · rename_i hm
    exact ⟨(congrArg Prod.snd h).symm, _, by simpa using hm⟩

theorem share_del_block_ok {n : Bytes} {b : Bool} :
    (share_del_block n).eval (exec e) w = (.ok b, w') ↔
      (b = true ∧ e.greps .delBlock n w.smb = true ∧ e.ok .mktemp = true ∧
        e.ok (.testparm (delTmp e n w.smb)) = true ∧ w' = { w with smb := delConf e n w.smb }) ∨
      (b = false ∧ e.greps .delBlock n w.smb = false ∧ w' = w) := by
  rw [share_del_block_eval]
  cases e.greps .delBlock n w.smb <;> cases e.ok .mktemp <;>
    cases e.ok (.testparm (delTmp e n w.smb)) <;> simp [eq_comm]

theorem share_del_block_err {n : Bytes}
    (h : (share_del_block n).eval (exec e) w = (.error m, w')) :
    w' = w ∧ ∃ k, e.ok k = false := by
  rw [share_del_block_eval] at h
  split at h
  · split at h
    · split at h
      · cases h
      · rename_i ht
        exact ⟨(congrArg Prod.snd h).symm, _, by simpa using ht⟩
    · rename_i hm
      exact ⟨(congrArg Prod.snd h).symm, _, by simpa using hm⟩
  · cases h

/-! ## Shares -/

theorem share_add_ok (h : (share_add args).eval (exec e) w = (.ok m, w')) :
    nameRe (arg args 0) = true ∧ e.greps .verb (arg args 0) w.smb = false ∧
    ∃ typ o mode, ShareType.ofArg (argOr args 1 (bytes "family")) = some typ ∧
      (typ = .priv → nameRe (arg args 2) = true ∧ arg args 2 ∈ w.accounts) ∧
      w' = { shareDir e o mode (arg args 0) w with
        smb := addConf e (arg args 0) typ (arg args 2) w.smb } ∧
      m = bytes "OK: share " ++ arg args 0 ++ bytes " added" := by
  unfold share_add at h
  rw [eval_bind_ok] at h
  obtain ⟨_, w₁, h1, h⟩ := h
  obtain ⟨hn, rfl⟩ := need_name_ok.1 h1
  simp only [sh_bind, eval_call, exec_grepHeader, eval_ite] at h
  split at h
  · cases h
  rename_i hg
  refine ⟨hn, by simpa [Env.greps] using hg, ?_⟩
  split at h
  · rename_i htyp
    rw [eval_bind_ok] at h
    obtain ⟨_, w₂, h2, h⟩ := h
    obtain ⟨ho, rfl⟩ := need_name_ok.1 h2
    simp only [eval_call, exec_id, eval_ite] at h
    split at h
    · rename_i hid
      simp only [Bool.and_eq_true, decide_eq_true_eq] at hid
      rw [eval_bind_ok] at h
      obtain ⟨_, w₃, h3, h⟩ := h
      obtain rfl := share_dir_ok.1 h3
      rw [eval_bind_ok] at h
      obtain ⟨_, w₄, h4, h⟩ := h
      obtain ⟨-, -, rfl⟩ := share_add_block_ok.1 h4
      cases h
      exact ⟨.priv, _, _, htyp, fun _ => ⟨ho, hid.2⟩, by rw [shareDir_smb], rfl⟩
    · cases h
  · rename_i typ hne htyp
    rw [eval_bind_ok] at h
    obtain ⟨_, w₃, h3, h⟩ := h
    obtain rfl := share_dir_ok.1 h3
    rw [eval_bind_ok] at h
    obtain ⟨_, w₄, h4, h⟩ := h
    obtain ⟨-, -, rfl⟩ := share_add_block_ok.1 h4
    cases h
    exact ⟨typ, _, _, htyp, fun ht => absurd ht hne, by rw [shareDir_smb], rfl⟩
  · cases h

theorem share_add_err (h : (share_add args).eval (exec e) w = (.error m, w')) :
    w' = w ∨ ((∃ o mode, w' = shareDir e o mode (arg args 0) w) ∧ ∃ k, e.ok k = false) := by
  unfold share_add at h
  rw [eval_bind_error] at h
  rcases h with h | ⟨_, w₁, h1, h⟩
  · exact .inl (need_name_err.1 h).2.1
  obtain ⟨hn, rfl⟩ := need_name_ok.1 h1
  simp only [sh_bind, eval_call, exec_grepHeader, eval_ite] at h
  split at h
  · cases h; exact .inl rfl
  split at h
  · rw [eval_bind_error] at h
    rcases h with h | ⟨_, w₂, h2, h⟩
    · exact .inl (need_name_err.1 h).2.1
    obtain ⟨-, rfl⟩ := need_name_ok.1 h2
    simp only [eval_call, exec_id, eval_ite] at h
    split at h
    · rw [eval_bind_error] at h
      rcases h with h | ⟨_, w₃, h3, h⟩
      · exact absurd h share_dir_err
      obtain rfl := share_dir_ok.1 h3
      rw [eval_bind_error] at h
      rcases h with h | ⟨_, w₄, -, h⟩
      · obtain ⟨rfl, hk⟩ := share_add_block_err h
        exact .inr ⟨⟨_, _, rfl⟩, hk⟩
      · cases h
    · cases h; exact .inl rfl
  · rw [eval_bind_error] at h
    rcases h with h | ⟨_, w₃, h3, h⟩
    · exact absurd h share_dir_err
    obtain rfl := share_dir_ok.1 h3
    rw [eval_bind_error] at h
    rcases h with h | ⟨_, w₄, -, h⟩
    · obtain ⟨rfl, hk⟩ := share_add_block_err h
      exact .inr ⟨⟨_, _, rfl⟩, hk⟩
    · cases h
  · cases h; exact .inl rfl

theorem share_del_ok (h : (share_del args).eval (exec e) w = (.ok m, w')) :
    nameRe (arg args 0) = true ∧ arg args 0 ∉ PROTECTED_SHARES ∧
    e.greps .verb (arg args 0) w.smb = true ∧
    ∃ b, (share_del_block (arg args 0)).eval (exec e) w = (.ok b, w') := by
  unfold share_del at h
  rw [eval_bind_ok] at h
  obtain ⟨_, w₁, h1, h⟩ := h
  obtain ⟨hn, rfl⟩ := need_name_ok.1 h1
  simp only [eval_ite] at h
  split at h
  · cases h
  rename_i hp
  simp only [sh_bind, eval_call, exec_grepHeader, eval_ite] at h
  split at h
  · rename_i hg
    rw [eval_bind_ok] at h
    obtain ⟨b, w₂, h2, h⟩ := h
    cases h
    exact ⟨hn, hp, hg, b, h2⟩
  · cases h

theorem share_del_err (h : (share_del args).eval (exec e) w = (.error m, w')) : w' = w := by
  unfold share_del at h
  rw [eval_bind_error] at h
  rcases h with h | ⟨_, w₁, h1, h⟩
  · exact (need_name_err.1 h).2.1
  obtain ⟨-, rfl⟩ := need_name_ok.1 h1
  simp only [eval_ite] at h
  split at h
  · cases h; rfl
  simp only [sh_bind, eval_call, exec_grepHeader, eval_ite] at h
  split at h
  · rw [eval_bind_error] at h
    rcases h with h | ⟨b, w₂, -, h⟩
    · exact (share_del_block_err h).1
    · cases h
  · cases h; rfl

end Panel
