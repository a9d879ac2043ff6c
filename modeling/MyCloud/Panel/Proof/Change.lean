import MyCloud.Panel.Proof.Quiet
import MyCloud.Panel.Proof.Spec
import MyCloud.Shell.Relational

/-!
# What a call does to smb.conf

`Change e c ok t t'` lists everything a call `c` can do to the text of smb.conf: `t` before, `t'`
after, `ok` whether the reply is OK. It is read off the script through `conf e`, which says what each
command does to that text alone and leaves all other answers open; so it holds of a call by itself
(`exec_change`) and of one among others that change accounts and directories in the meantime
(`runs_change`). Each invariant of smb.conf over runs is a case analysis on `Change`.
-/

set_option autoImplicit false

namespace Panel

open Shell Script

/-! ## Faults -/

/-- No copy of smb.conf stops early. -/
structure Copies (e : Env) : Prop where
  cat : e.outcome .catConf = .ok
  append : ∀ t u, e.outcome (.append t u) = .ok
  awk : ∀ n, e.outcome (.awkDel n) = .ok
  write : ∀ t, e.outcome (.writeConf t) = .ok

theorem Succeeds.copies {e : Env} (h : Succeeds e) : Copies e :=
  ⟨h _, fun _ _ => h _, fun _ => h _, fun _ => h _⟩

@[simp] theorem Succeeds.ok {e : Env} (h : Succeeds e) (c : Cmd) : e.ok c = true := by
  simp [Env.ok, h c]

/-- Nothing fails, and the probes show nothing. -/
def allOk : Env := ⟨fun _ => .ok, fun _ => none⟩

theorem succeeds_allOk : Succeeds allOk := fun _ => rfl

theorem Succeeds.greps {e : Env} (h : Succeeds e) (by_ : Caller) (n t : Bytes) :
    e.greps by_ n t = hasHeader n t := by
  simp [Env.greps, h.ok]

theorem Copies.addConf {e : Env} (h : Copies e) (n : Bytes) (typ : ShareType) (owner t : Bytes) :
    addConf e n typ owner t = t ++ shareBlock n typ owner := by
  simp [Panel.addConf, addTmp, Env.copiedBack, Env.opens, Env.written, h.cat, h.append, h.write]

theorem Copies.delConf {e : Env} (h : Copies e) (n t : Bytes) : delConf e n t = awkDel n t := by
  simp [Panel.delConf, delTmp, Env.copiedBack, Env.opens, Env.written, h.awk, h.write]

/-- What a call does to smb.conf, by its verb and reply. -/
inductive Change (e : Env) (c : Call) : Bool → Bytes → Bytes → Prop
  | refused (t : Bytes) : Change e c false t t
  | shareAdd {t : Bytes} {typ : ShareType} (hv : c.verb = .shareAdd) (hn : nameRe c.name = true)
      (hg : e.greps .verb c.name t = false) (ht : c.shareType = some typ)
      (ho : typ = .priv → nameRe (arg c.args 2) = true) :
      Change e c true t (t ++ shareBlock c.name typ (arg c.args 2))
  | userAdd {t : Bytes} (hv : c.verb = .userAdd) (hn : nameRe c.name = true)
      (hp : c.name ∉ PROTECTED_USERS) (hs : c.withShare) (hg : e.greps .verb c.name t = false) :
      Change e c true t (t ++ shareBlock c.name .priv c.name)
  | userAddOnly {t : Bytes} (hv : c.verb = .userAdd) (hn : nameRe c.name = true)
      (hp : c.name ∉ PROTECTED_USERS)
      (hs : ¬ (c.withShare ∧ e.greps .verb c.name t = false)) : Change e c true t t
  | shareDel {t : Bytes} (hv : c.verb = .shareDel) (hn : nameRe c.name = true)
      (hp : c.name ∉ PROTECTED_SHARES) (hg : e.greps .delBlock c.name t = true) :
      Change e c true t (awkDel c.name t)
  | shareDelOnly {t : Bytes} (hv : c.verb = .shareDel) (hn : nameRe c.name = true)
      (hp : c.name ∉ PROTECTED_SHARES) (hg : e.greps .delBlock c.name t = false)
      (hg' : e.greps .verb c.name t = true) : Change e c true t t
  | userDel {t : Bytes} (hv : c.verb = .userDel) (hn : nameRe c.name = true)
      (hp : c.name ∉ PROTECTED_USERS) (hg : e.greps .delBlock c.name t = true) :
      Change e c true t (awkDel c.name t)
  | userDelOnly {t : Bytes} (hv : c.verb = .userDel) (hn : nameRe c.name = true)
      (hp : c.name ∉ PROTECTED_USERS) (hg : e.greps .delBlock c.name t = false) :
      Change e c true t t
  | other {t : Bytes} (h : c.verb ∉ [.shareAdd, .shareDel, .userAdd, .userDel]) :
      Change e c true t t

/-! ## smb.conf alone -/

/-- What command `c` does to the text `t` of smb.conf, and what it answers about it. -/
def conf (e : Env) : (c : Cmd) → Bytes → c.Out → Bytes → Prop
  | .grepHeader by_ n, t, r, t' => r = e.greps by_ n t ∧ t' = t
  | .readConf, t, r, t' => r = e.written .readConf t ∧ t' = t
  | .catConf, t, r, t' => r = e.written .catConf t ∧ t' = t
  | .append tmp text, t, r, t' => r = tmp ++ e.written (.append tmp text) text ∧ t' = t
  | .awkDel n, t, r, t' => r = e.written (.awkDel n) (awkDel n t) ∧ t' = t
  | .writeConf tmp, t, _, t' => t' = e.copiedBack tmp t
  | _, t, _, t' => t' = t

/-- The commands that read or write smb.conf. -/
def Cmd.looks : Cmd → Bool
  | .grepHeader _ _ | .readConf | .catConf | .awkDel _ | .writeConf _ => true
  | _ => false

def Cmd.writes : Cmd → Bool
  | .writeConf _ => true
  | _ => false

/-- The commands that do not write smb.conf. -/
def Cmd.Leaves (c : Cmd) : Prop := ¬ c.writes = true

theorem conf_leaves {e : Env} {c : Cmd} (hc : c.Leaves) {t t' : Bytes} {r : c.Out}
    (h : conf e c t r t') : t' = t := by
  cases c with
  | writeConf => exact absurd rfl hc
  | grepHeader | readConf | catConf | append | awkDel => exact h.2
  | _ => exact h

theorem exec_leaves (e : Env) {c : Cmd} (hc : c.Leaves) (w : World) :
    (exec e c w).2.smb = w.smb := by
  cases c with
  | writeConf => exact absurd rfl hc
  | usermod u g =>
    simp only [exec, World.join]
    split_ifs <;> rfl
  | smbpasswdAdd | smbpasswdSet =>
    simp only [exec]
    split
    · split <;> rfl
    · rfl
  | adduser | gpasswd | deluser | smbpasswdNull | smbpasswdDel =>
    simp only [exec]
    split <;> rfl
  | _ => exact quiet_smb e (by trivial) w

/-- The commands do to smb.conf what `conf` says. -/
theorem conf_exec (e : Env) (c : Cmd) (w : World) :
    conf e c w.smb (exec e c w).1 (exec e c w).2.smb := by
  cases c with
  | writeConf => rfl
  | grepHeader | readConf | catConf | append | awkDel => exact ⟨rfl, rfl⟩
  | _ => exact exec_leaves e (by simp [Cmd.Leaves, Cmd.writes]) w

theorem Cmd.Quiet.leaves {c : Cmd} (h : c.Quiet) : c.Leaves := by
  cases c with
  | writeConf => exact h.elim
  | _ => nofun

/-! ## The write-back comes last -/

/-- After the write-back come only commands that do not look at smb.conf, and the reply is OK. -/
abbrev WritesConfLast {α : Type} (p : Op α) : Prop :=
  p.WritesLast (fun c => c.writes = true) fun c => c.looks = false

theorem not_writes_of_not_looks {c : Cmd} (h : c.looks = false) : ¬ c.writes = true := by
  cases c with
  | writeConf => cases h
  | _ => nofun

theorem need_name_leaves (a : Bytes) : (need_name a).Uses Cmd.Leaves := by
  simp [need_name]

theorem share_dir_leaves (o mode n : Bytes) : (share_dir o mode n).Uses Cmd.Leaves := by
  simp [share_dir, Cmd.Leaves, Cmd.writes]

theorem user_add_account_leaves (u : Bytes) : (user_add_account u).Uses Cmd.Leaves := by
  simp [user_add_account, die, Cmd.Leaves, Cmd.writes]

theorem user_add_password_leaves (u pass : Bytes) :
    (user_add_password u pass).Uses Cmd.Leaves := by
  simp [user_add_password, die, Cmd.Leaves, Cmd.writes]

theorem user_del_smb_leaves (u : Bytes) : (user_del_smb u).Uses Cmd.Leaves := by
  simp [user_del_smb, Cmd.Leaves, Cmd.writes]

theorem user_del_account_leaves (u : Bytes) : (user_del_account u).Uses Cmd.Leaves := by
  simp [user_del_account, Cmd.Leaves, Cmd.writes]

theorem user_pass_leaves (args : List Bytes) (stdin : Bytes) :
    (user_pass args stdin).Uses Cmd.Leaves :=
  uses_bind (need_name_leaves _) fun _ => by simp [die, Cmd.Leaves, Cmd.writes]

theorem user_admin_leaves (args : List Bytes) : (user_admin args).Uses Cmd.Leaves :=
  uses_bind (need_name_leaves _) fun _ => by simp [die, Cmd.Leaves, Cmd.writes]

theorem share_add_block_writes (n : Bytes) (typ : ShareType) (owner : Bytes) :
    WritesConfLast (share_add_block n typ owner) := by
  simp [WritesConfLast, share_add_block, die, Cmd.writes, Cmd.looks]

theorem share_del_block_writes (n : Bytes) : WritesConfLast (share_del_block n) := by
  simp [WritesConfLast, share_del_block, die, Cmd.writes, Cmd.looks]

theorem user_add_share_writes (u withshare : Bytes) :
    WritesConfLast (user_add_share u withshare) := by
  simp only [WritesConfLast, user_add_share, sh_bind, writesLast_ite, writesLast_call, Cmd.writes]
  refine ⟨fun _ => ⟨(absurd · Bool.false_ne_true), fun _ => ⟨fun _ => trivial, fun _ => ?_⟩⟩,
    fun _ => trivial⟩
  exact writesLast_bind (share_dir_leaves ..) fun _ => share_add_block_writes ..

theorem share_add_writes (args : List Bytes) : WritesConfLast (share_add args) := by
  -- the same end for the three types
  have hend : ∀ (typ : ShareType) (o mode m : Bytes), WritesConfLast (do
      share_dir o mode (arg args 0)
      share_add_block (arg args 0) typ (arg args 2)
      return m) := fun typ o mode m =>
    writesLast_bind (share_dir_leaves ..) fun _ =>
      writesLast_bind_tail (share_add_block_writes ..) (fun _ => trivial)
        fun _ => not_writes_of_not_looks
  refine writesLast_bind (need_name_leaves _) fun _ => ?_
  simp only [sh_bind, writesLast_ite, writesLast_call, Cmd.writes]
  refine ⟨(absurd · Bool.false_ne_true), fun _ => ⟨fun _ => trivial, fun _ => ?_⟩⟩
  split
  · refine writesLast_bind (need_name_leaves _) fun _ => ?_
    simp only [writesLast_ite, writesLast_call]
    exact ⟨(absurd · Bool.false_ne_true), fun _ => ⟨fun _ => hend .., fun _ => trivial⟩⟩
  · exact hend ..
  · trivial

theorem share_del_writes (args : List Bytes) : WritesConfLast (share_del args) := by
  refine writesLast_bind (need_name_leaves _) fun _ => ?_
  simp only [sh_bind, writesLast_ite, writesLast_call, Cmd.writes]
  refine ⟨fun _ => trivial, fun _ => ⟨(absurd · Bool.false_ne_true),
    fun _ => ⟨fun _ => ?_, fun _ => trivial⟩⟩⟩
  exact writesLast_bind_tail (share_del_block_writes _) (fun _ => trivial)
    fun _ => not_writes_of_not_looks

theorem user_add_writes (args : List Bytes) (stdin : Bytes) :
    WritesConfLast (user_add args stdin) := by
  refine writesLast_bind (need_name_leaves _) fun _ => ?_
  simp only [writesLast_ite]
  refine ⟨fun _ => trivial, fun _ => ⟨fun _ => trivial, fun _ => ?_⟩⟩
  refine writesLast_bind (user_add_account_leaves _) fun _ => ?_
  rw [sh_bind, writesLast_call]
  refine ⟨(absurd · Bool.false_ne_true),
    fun _ => writesLast_bind (user_add_password_leaves ..) fun _ => ?_⟩
  refine writesLast_bind_tail (user_add_share_writes ..) (fun _ => ?_)
    fun _ => not_writes_of_not_looks
  split <;> trivial

theorem user_del_writes (args : List Bytes) : WritesConfLast (user_del args) := by
  refine writesLast_bind (need_name_leaves _) fun _ => ?_
  simp only [writesLast_ite]
  refine ⟨fun _ => trivial, fun _ => ?_⟩
  refine writesLast_bind (user_del_smb_leaves _) fun _ => ?_
  refine writesLast_bind_tail (share_del_block_writes _) (fun _ => ?_)
    fun _ => not_writes_of_not_looks
  refine tail_bind ?_ fun _ => trivial
  simp [user_del_account, Cmd.looks]

/-- **A verb copies back smb.conf once it can fail no more.** -/
theorem panel_op_writes (v : Verb) (args : List Bytes) (stdin : Bytes) :
    WritesConfLast (panel_op v args stdin) := by
  cases v with
  | shareAdd => exact share_add_writes args
  | shareDel => exact share_del_writes args
  | userAdd => exact user_add_writes args stdin
  | userDel => exact user_del_writes args
  | userPass => exact writesLast_of_uses (user_pass_leaves args stdin)
  | userAdmin => exact writesLast_of_uses (user_admin_leaves args)
  | _ => exact writesLast_of_uses ((panel_op_quiet rfl args stdin).mono fun _ => Cmd.Quiet.leaves)

/-! ## A refused call -/

variable {e : Env} {t t' m : Bytes}

theorem refused_runs {c : Call}
    (h : Runs (conf e) (panel_op c.verb c.args c.stdin) t (.error m) t') : t' = t :=
  runs_error_keeps (I := fun u => u = t) (panel_op_writes ..)
    (fun _ hc _ _ _ hr hu => (conf_leaves hc hr).trans hu) h rfl

theorem exec_runs {c : Call} {w w' : World} {r : Except Bytes Bytes} (h : c.exec e w = (r, w')) :
    Runs (conf e) (panel_op c.verb c.args c.stdin) w.smb r w'.smb := by
  have hr := runs_of_eval (conf_exec e) (panel_op c.verb c.args c.stdin) w
  unfold Call.exec at h
  rwa [h] at hr

/-- A refused call leaves smb.conf as it is. -/
theorem refused_smb {c : Call} {w w' : World} (h : c.exec e w = (.error m, w')) :
    w'.smb = w.smb :=
  refused_runs (exec_runs h)

/-! ## The edits -/

theorem need_name_runs {a : Bytes} {r : Unit} :
    Runs (conf e) (need_name a) t (.ok r) t' ↔ nameRe a = true ∧ t' = t := by
  unfold need_name
  cases nameRe a <;> simp

theorem runs_leaves {α : Type} {p : Op α} (hp : p.Uses Cmd.Leaves) {res : Except Bytes α}
    (h : Runs (conf e) p t res t') : t' = t :=
  runs_keeps (I := fun u => u = t) hp (fun _ hc _ _ _ hr hu => (conf_leaves hc hr).trans hu) h rfl

theorem share_add_block_runs {n owner : Bytes} {typ : ShareType} {r : Unit}
    (h : Runs (conf e) (share_add_block n typ owner) t (.ok r) t') :
    t' = addConf e n typ owner t := by
  simp only [share_add_block, die, conf, sh_bind, runs_call, runs_ite, runs_sh, exit_bind,
    runs_exit] at h
  obtain ⟨_, _, rfl, ⟨-, _, _, ⟨rfl, rfl⟩, _, _, ⟨rfl, rfl⟩, _, _, rfl, h⟩ | ⟨-, h, -⟩⟩ := h
  · obtain ⟨-, _, _, rfl, _, _, rfl, _, rfl, -⟩ | ⟨-, _, _, -, h, -⟩ := h
    · rfl
    · cases h
  · cases h

theorem share_del_block_runs {n : Bytes} {b : Bool}
    (h : Runs (conf e) (share_del_block n) t (.ok b) t') :
    (e.greps .delBlock n t = true ∧ t' = delConf e n t) ∨
      (e.greps .delBlock n t = false ∧ t' = t) := by
  simp only [share_del_block, die, conf, sh_bind, runs_call, runs_ite, exit_bind, pure_eq_ret,
    runs_exit, runs_ret] at h
  obtain ⟨_, _, ⟨rfl, rfl⟩, ⟨hg, _, _, rfl, h | ⟨-, h, -⟩⟩ | ⟨hg, -, rfl⟩⟩ := h
  · obtain ⟨-, _, _, ⟨rfl, rfl⟩, _, _, rfl, h | ⟨-, _, _, -, h, -⟩⟩ := h
    · obtain ⟨-, _, _, rfl, _, _, rfl, _, _, rfl, -, rfl⟩ := h
      exact .inl ⟨hg, rfl⟩
    · cases h
  · cases h
  · exact .inr ⟨by simpa using hg, rfl⟩

/-- The private share of `user-add`. -/
theorem user_add_share_runs {u withshare : Bytes} {r : Unit}
    (h : Runs (conf e) (user_add_share u withshare) t (.ok r) t') :
    (withshare = bytes "share" ∧ e.greps .verb u t = false ∧ t' = addConf e u .priv u t) ∨
      (¬ (withshare = bytes "share" ∧ e.greps .verb u t = false) ∧ t' = t) := by
  simp only [user_add_share, sh_bind, runs_ite, runs_call, conf, pure_eq_ret, runs_ret] at h
  rcases h with ⟨hs, _, _, ⟨rfl, rfl⟩, ⟨hg, -, rfl⟩ | ⟨hg, h⟩⟩ | ⟨hs, -, rfl⟩
  · exact .inr ⟨fun hc => Bool.false_ne_true (hc.2.symm.trans hg), rfl⟩
  · rw [runs_bind_ok] at h
    obtain ⟨_, t₁, h1, h⟩ := h
    obtain rfl := runs_leaves (share_dir_leaves ..) h1
    exact .inl ⟨hs, by simpa using hg, share_add_block_runs h⟩
  · exact .inr ⟨fun hc => hs hc.1, rfl⟩

/-! ## The verbs -/

theorem share_add_runs (he : Copies e) {c : Call} (hv : c.verb = .shareAdd)
    (h : Runs (conf e) (share_add c.args) t (.ok m) t') : Change e c true t t' := by
  -- the same end for the three types
  have hend : ∀ {typ : ShareType} {o mode m' : Bytes}, nameRe c.name = true →
      e.greps .verb c.name t = false → c.shareType = some typ →
      (typ = .priv → nameRe (arg c.args 2) = true) →
      Runs (conf e) (do
        share_dir o mode c.name
        share_add_block c.name typ (arg c.args 2)
        return m') t (.ok m) t' → Change e c true t t' := by
    intro typ o mode m' hn hg ht ho hr
    rw [runs_bind_ok] at hr
    obtain ⟨_, t₁, h1, hr⟩ := hr
    obtain rfl := runs_leaves (share_dir_leaves ..) h1
    rw [runs_bind_ok] at hr
    obtain ⟨_, t₂, h2, hr⟩ := hr
    obtain ⟨-, rfl⟩ := runs_ret.1 hr
    rw [share_add_block_runs h2, he.addConf]
    exact .shareAdd hv hn hg ht ho
  unfold share_add at h
  rw [runs_bind_ok] at h
  obtain ⟨_, t₁, h1, h⟩ := h
  obtain ⟨hn, rfl⟩ := need_name_runs.1 h1
  simp only [sh_bind, runs_call, conf, runs_ite] at h
  obtain ⟨_, _, ⟨rfl, rfl⟩, ⟨-, h⟩ | ⟨hg, h⟩⟩ := h
  · cases (runs_exit.1 h).1
  rw [Bool.not_eq_true] at hg
  split at h
  · rename_i ht
    rw [runs_bind_ok] at h
    obtain ⟨_, t₂, h2, h⟩ := h
    obtain ⟨ho, rfl⟩ := need_name_runs.1 h2
    simp only [runs_call, conf, runs_ite] at h
    obtain ⟨_, _, rfl, ⟨-, h⟩ | ⟨-, h⟩⟩ := h
    · exact hend hn hg ht (fun _ => ho) h
    · cases (runs_exit.1 h).1
  · rename_i typ hne ht
    exact hend hn hg ht (fun hp => absurd hp hne) h
  · cases (runs_exit.1 h).1

theorem share_del_runs (he : Copies e) {c : Call} (hv : c.verb = .shareDel)
    (h : Runs (conf e) (share_del c.args) t (.ok m) t') : Change e c true t t' := by
  unfold share_del at h
  rw [runs_bind_ok] at h
  obtain ⟨_, t₁, h1, h⟩ := h
  obtain ⟨hn, rfl⟩ := need_name_runs.1 h1
  simp only [sh_bind, runs_call, conf, runs_ite] at h
  obtain ⟨-, h⟩ | ⟨hp, _, _, ⟨rfl, rfl⟩, ⟨hg, h⟩ | ⟨-, h⟩⟩ := h
  · cases (runs_exit.1 h).1
  · rw [runs_bind_ok] at h
    obtain ⟨b, t₂, h2, h⟩ := h
    obtain ⟨-, rfl⟩ := runs_ret.1 h
    rcases share_del_block_runs h2 with ⟨hg', rfl⟩ | ⟨hg', rfl⟩
    · rw [he.delConf]
      exact .shareDel hv hn hp hg'
    · exact .shareDelOnly hv hn hp hg' hg
  · cases (runs_exit.1 h).1

theorem user_add_runs (he : Copies e) {c : Call} (hv : c.verb = .userAdd)
    (h : Runs (conf e) (user_add c.args c.stdin) t (.ok m) t') : Change e c true t t' := by
  unfold user_add at h
  rw [runs_bind_ok] at h
  obtain ⟨_, t₁, h1, h⟩ := h
  obtain ⟨hn, rfl⟩ := need_name_runs.1 h1
  simp only [runs_ite] at h
  obtain ⟨-, h⟩ | ⟨-, ⟨-, h⟩ | ⟨hp, h⟩⟩ := h
  · cases (runs_exit.1 h).1
  · cases (runs_exit.1 h).1
  rw [runs_bind_ok] at h
  obtain ⟨_, t₂, h2, h⟩ := h
  obtain rfl := runs_leaves (user_add_account_leaves _) h2
  rw [sh_bind, runs_call] at h
  obtain ⟨_, t₃, h3, h⟩ := h
  obtain rfl : t₃ = t₂ := h3
  rw [runs_bind_ok] at h
  obtain ⟨_, t₄, h4, h⟩ := h
  obtain rfl := runs_leaves (user_add_password_leaves ..) h4
  rw [runs_bind_ok] at h
  obtain ⟨_, t₅, h5, h⟩ := h
  obtain rfl : t' = t₅ := by
    split at h <;> exact (runs_ret.1 h).2
  rcases user_add_share_runs h5 with ⟨hs, hg, rfl⟩ | ⟨hs, rfl⟩
  · rw [he.addConf]
    exact .userAdd hv hn hp hs hg
  · exact .userAddOnly hv hn hp hs

theorem user_del_runs (he : Copies e) {c : Call} (hv : c.verb = .userDel)
    (h : Runs (conf e) (user_del c.args) t (.ok m) t') : Change e c true t t' := by
  unfold user_del at h
  rw [runs_bind_ok] at h
  obtain ⟨_, t₁, h1, h⟩ := h
  obtain ⟨hn, rfl⟩ := need_name_runs.1 h1
  simp only [runs_ite] at h
  obtain ⟨-, h⟩ | ⟨hp, h⟩ := h
  · cases (runs_exit.1 h).1
  rw [runs_bind_ok] at h
  obtain ⟨_, t₂, h2, h⟩ := h
  obtain rfl := runs_leaves (user_del_smb_leaves _) h2
  rw [runs_bind_ok] at h
  obtain ⟨_, t₃, h3, h⟩ := h
  rw [runs_bind_ok] at h
  obtain ⟨_, t₄, h4, h⟩ := h
  obtain rfl := runs_leaves (user_del_account_leaves _) h4
  obtain ⟨-, rfl⟩ := runs_ret.1 h
  rcases share_del_block_runs h3 with ⟨hg, rfl⟩ | ⟨hg, rfl⟩
  · rw [he.delConf]
    exact .userDel hv hn hp hg
  · exact .userDelOnly hv hn hp hg

/-- **Everything a call with an OK reply can do to smb.conf**, whatever happens to the accounts
meanwhile. -/
theorem runs_change (he : Copies e) {c : Call}
    (h : Runs (conf e) (panel_op c.verb c.args c.stdin) t (.ok m) t') : Change e c true t t' := by
  cases hv : c.verb with
  | shareAdd => exact share_add_runs he hv (by rwa [hv] at h)
  | shareDel => exact share_del_runs he hv (by rwa [hv] at h)
  | userAdd => exact user_add_runs he hv (by rwa [hv] at h)
  | userDel => exact user_del_runs he hv (by rwa [hv] at h)
  | userPass =>
    rw [hv] at h
    rw [runs_leaves (user_pass_leaves _ _) h]
    exact .other (by simp [hv])
  | userAdmin =>
    rw [hv] at h
    rw [runs_leaves (user_admin_leaves _) h]
    exact .other (by simp [hv])
  | _ =>
    have hq := panel_op_quiet (v := c.verb) (by rw [hv]; rfl) c.args c.stdin
    rw [runs_leaves (hq.mono fun _ => Cmd.Quiet.leaves) h]
    exact .other (by simp [hv])

/-- **Everything one call can do to smb.conf.** -/
theorem exec_change (he : Copies e) (c : Call) (w : World) :
    Change e c (c.accepted e w) w.smb (c.exec e w).2.smb := by
  unfold Call.accepted
  rcases hr : c.exec e w with ⟨m | m, w'⟩
  · rw [refused_smb hr]
    exact .refused _
  · exact runs_change he (exec_runs hr)

end Panel
