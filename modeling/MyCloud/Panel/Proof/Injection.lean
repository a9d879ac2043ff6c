import MyCloud.Panel.Argv
import MyCloud.Panel.Proof.Runs

/-!
# No argument reaches a command but as a name

`Cmd.Fits c cmd` says of each command what may stand in its holes.

* `fits_runs`: the command lines of a fitting command have one of the `shapes`, with names and words
  of the verb in the holes.
* `panel_op_fits`: a call runs fitting commands only, whatever its arguments and whatever fails.
* `no_injection`: the same of the trace of a call, with what follows for smb.conf and directories.
-/

set_option autoImplicit false

namespace Panel

open Shell Script

/-! ## Holes -/

/-- The text of one section, for a share and an owner with names. -/
def IsBlock (text : Bytes) : Prop := ∃ n typ owner, nameRe n = true ∧
  (typ = .priv → nameRe owner = true) ∧ text = shareBlock n typ owner

/-- What may stand in the holes of a command of the call `c`, and what it may read. -/
def Cmd.Fits (c : Call) : Cmd → Prop
  | .id u | .adduser u | .deluser u | .smbpasswdNull u | .smbpasswdDel u => nameRe u = true
  | .mkdir n | .grepHeader _ n | .awkDel n => nameRe n = true
  | .usermod u g | .gpasswd u g => nameRe u = true ∧ g ∈ c.verb.words
  | .smbpasswdAdd u stdin | .smbpasswdSet u stdin =>
    nameRe u = true ∧ ∃ l, nl ∉ l ∧ stdin = twice l
  | .pdbedit => c.verb = .userList ∨ nameRe c.name = true
  | .getent g => g ∈ c.verb.words
  | .chown o n => nameRe o = true ∧ nameRe n = true
  | .chmod mode n => mode ∈ c.verb.words ∧ nameRe n = true
  | .append _ text => IsBlock text
  | .probe (.pidof p) | .probe (.isBlock p) | .probe (.blkid p) => p ∈ c.verb.words
  | .ledColor color | .ledCache color => color ∈ c.verb.words
  | .updateRc s act => s ∈ c.verb.words ∧ act ∈ c.verb.words
  | .mount fs p => fs ∈ c.verb.words ∧ p ∈ c.verb.words
  | .shutdown flag => flag ∈ c.verb.words
  | .smartTest t => t ∈ c.verb.words
  | _ => True

/-- A name, or a word of the verb. -/
def Good (v : Verb) (h : Bytes) : Prop := nameRe h = true ∨ h ∈ v.words

/-- A command line of the script, its holes filled with names and words of the verb. -/
def Plain (v : Verb) (argv : List Word) : Prop := shape argv ∈ shapes ∧ ∀ h ∈ holes argv, Good v h

section
variable {v : Verb} {argv : List Word} {a b : Bytes}

theorem plain0 (hs : decide (shape argv ∈ shapes) = true) (hh : holes argv = []) : Plain v argv :=
  ⟨of_decide_eq_true hs, by simp [hh]⟩

theorem plain1 (hs : decide (shape argv ∈ shapes) = true) (hh : holes argv = [a]) (ha : Good v a) :
    Plain v argv := ⟨of_decide_eq_true hs, by simpa [hh] using ha⟩

theorem plain2 (hs : decide (shape argv ∈ shapes) = true) (hh : holes argv = [a, b])
    (ha : Good v a) (hb : Good v b) : Plain v argv :=
  ⟨of_decide_eq_true hs, by simpa [hh] using ⟨ha, hb⟩⟩

end

theorem probe_runs {c : Call} {p : Probe} (h : Cmd.Fits c (.probe p)) :
    ∀ argv ∈ p.runs, Plain c.verb argv := by
  cases p with
  | pidof s => exact List.forall_mem_singleton.2 (plain1 rfl rfl (.inr h))
  | isBlock s => exact List.forall_mem_singleton.2 (plain1 rfl rfl (.inr h))
  | blkid s =>
    exact List.forall_mem_cons.2 ⟨plain1 rfl rfl (.inr h),
      List.forall_mem_singleton.2 (plain1 rfl rfl (.inr h))⟩
  | uptime | smartAll | ledBlink | partitions =>
    exact List.forall_mem_singleton.2 (plain0 rfl rfl)
  | free | df | mdstat | dfUsb =>
    exact List.forall_mem_cons.2 ⟨plain0 rfl rfl, List.forall_mem_singleton.2 (plain0 rfl rfl)⟩
  | smartHealth =>
    simp only [Probe.runs, List.forall_mem_cons, List.not_mem_nil, false_imp_iff, implies_true,
      and_true]
    exact ⟨plain0 rfl rfl, plain0 rfl rfl, plain0 rfl rfl, plain0 rfl rfl⟩

theorem fits_runs {c : Call} {cmd : Cmd} (h : cmd.Fits c) :
    ∀ argv ∈ cmd.runs c, Plain c.verb argv := by
  cases cmd with
  | id u | adduser u | deluser u | smbpasswdNull u | smbpasswdDel u | mkdir n | grepHeader by_ n
  | awkDel n => exact List.forall_mem_singleton.2 (plain1 rfl rfl (.inl h))
  | smbpasswdAdd u _ | smbpasswdSet u _ =>
    exact List.forall_mem_singleton.2 (plain1 rfl rfl (.inl h.1))
  | usermod u g => exact List.forall_mem_singleton.2 (plain2 rfl rfl (.inr h.2) (.inl h.1))
  | gpasswd u g => exact List.forall_mem_singleton.2 (plain2 rfl rfl (.inl h.1) (.inr h.2))
  | chown o n => exact List.forall_mem_singleton.2 (plain2 rfl rfl (.inl h.1) (.inl h.2))
  | chmod mode n => exact List.forall_mem_singleton.2 (plain2 rfl rfl (.inr h.1) (.inl h.2))
  | pdbedit =>
    refine List.forall_mem_cons.2 ⟨plain0 rfl rfl, List.forall_mem_singleton.2 ?_⟩
    unfold pdbeditFilter
    split
    · exact plain0 rfl rfl
    · rename_i hv
      exact plain1 rfl rfl (.inl (h.resolve_left hv))
  | getent g =>
    exact List.forall_mem_cons.2 ⟨plain1 rfl rfl (.inr h),
      List.forall_mem_singleton.2 (plain0 rfl rfl)⟩
  | readConf =>
    simp only [Cmd.runs, List.forall_mem_cons, List.not_mem_nil, false_imp_iff, implies_true,
      and_true]
    exact ⟨plain0 rfl rfl, plain0 rfl rfl, plain0 rfl rfl, plain0 rfl rfl⟩
  | probe p => exact probe_runs h
  | ledColor color | ledCache color | shutdown flag | smartTest t =>
    exact List.forall_mem_singleton.2 (plain1 rfl rfl (.inr h))
  | updateRc s act => exact List.forall_mem_singleton.2 (plain2 rfl rfl (.inr h.1) (.inr h.2))
  | sleep =>
    refine List.forall_mem_singleton.2 ?_
    split <;> exact plain0 rfl rfl
  | mount fs p =>
    simp only [Cmd.runs]
    split
    · exact List.forall_mem_singleton.2 (plain1 rfl rfl (.inr h.2))
    · exact List.forall_mem_singleton.2 (plain2 rfl rfl (.inr h.1) (.inr h.2))
  | _ => exact List.forall_mem_singleton.2 (plain0 rfl rfl)

/-! ## The verbs -/

theorem need_name_returns (a : Bytes) : (need_name a).Returns fun _ => nameRe a = true := by
  simp [need_name]

/-- What follows the check of a name may rely on it. -/
theorem fits_named {c : Call} {a : Bytes} {α : Type} {f : Unit → Op α}
    (hf : nameRe a = true → (f ()).Uses (Cmd.Fits c)) : (need_name a >>= f).Uses (Cmd.Fits c) :=
  uses_bind_returns (by simp [need_name]) (need_name_returns a) fun _ => hf

section
variable {c : Call} {n owner : Bytes} {typ : ShareType}

theorem share_add_block_fits (hn : nameRe n = true) (ho : typ = .priv → nameRe owner = true) :
    (share_add_block n typ owner).Uses (Cmd.Fits c) := by
  have hblock : IsBlock (shareBlock n typ owner) := ⟨n, typ, owner, hn, ho, rfl⟩
  simp [share_add_block, die, Cmd.Fits, hblock]

theorem share_del_block_fits (hn : nameRe n = true) : (share_del_block n).Uses (Cmd.Fits c) := by
  simp [share_del_block, die, Cmd.Fits, hn]

theorem share_dir_fits {o mode : Bytes} (ho : nameRe o = true) (hm : mode ∈ c.verb.words)
    (hn : nameRe n = true) : (share_dir o mode n).Uses (Cmd.Fits c) := by
  simp [share_dir, Cmd.Fits, ho, hm, hn]

/-- The directory and the section of a share. -/
theorem share_fits {o mode msg : Bytes} (ho : nameRe o = true) (hm : mode ∈ c.verb.words)
    (hn : nameRe n = true) (hp : typ = .priv → nameRe owner = true) :
    (do share_dir o mode n
        share_add_block n typ owner
        return msg : Op Bytes).Uses (Cmd.Fits c) :=
  uses_bind (share_dir_fits ho hm hn) fun _ =>
    uses_bind (share_add_block_fits hn hp) fun _ => trivial

theorem share_add_fits (args : List Bytes) (stdin : Bytes) :
    (share_add args).Uses (Cmd.Fits ⟨.shareAdd, args, stdin⟩) := by
  have halpha : nameRe (bytes "alpha") = true := by decide
  have h2770 : bytes "2770" ∈ Verb.words .shareAdd := by decide
  have h2775 : bytes "2775" ∈ Verb.words .shareAdd := by decide
  refine fits_named fun hn => ?_
  simp only [sh_bind, uses_call, uses_ite]
  refine ⟨hn, fun _ => ⟨fun _ => trivial, fun _ => ?_⟩⟩
  split
  · refine fits_named fun ho => ?_
    simp only [uses_call, uses_ite]
    exact ⟨ho, fun _ => ⟨fun _ => share_fits ho h2770 hn fun _ => ho, fun _ => trivial⟩⟩
  · rename_i typ hne htyp
    exact share_fits halpha h2775 hn fun hp => absurd hp hne
  · trivial

theorem share_del_fits (args : List Bytes) (stdin : Bytes) :
    (share_del args).Uses (Cmd.Fits ⟨.shareDel, args, stdin⟩) := by
  refine fits_named fun hn => ?_
  simp only [sh_bind, uses_call, uses_ite]
  exact ⟨fun _ => trivial, fun _ => ⟨hn, fun _ => ⟨fun _ => uses_bind (share_del_block_fits hn)
    fun _ => trivial, fun _ => trivial⟩⟩⟩

theorem user_add_account_fits (hn : nameRe n = true) :
    (user_add_account n).Uses (Cmd.Fits c) := by
  simp [user_add_account, die, Cmd.Fits, hn]

theorem user_add_password_fits {pass : Bytes} (hn : nameRe n = true) (hp : nl ∉ pass) :
    (user_add_password n pass).Uses (Cmd.Fits c) := by
  have ht : nl ∉ bytes "Temp0Pass1" := by decide
  have h1 : ∃ l, nl ∉ l ∧ twice pass = twice l := ⟨pass, hp, rfl⟩
  have h2 : ∃ l, nl ∉ l ∧ twice (bytes "Temp0Pass1") = twice l := ⟨_, ht, rfl⟩
  simp [user_add_password, die, Cmd.Fits, hn, h1, h2]

theorem user_add_fits (args : List Bytes) (stdin : Bytes) :
    (user_add args stdin).Uses (Cmd.Fits ⟨.userAdd, args, stdin⟩) := by
  have h2770 : bytes "2770" ∈ Verb.words .userAdd := by decide
  have husers : users ∈ Verb.words .userAdd := by decide
  refine fits_named fun hn => ?_
  simp only [uses_ite]
  refine ⟨fun _ => trivial, fun _ => ⟨fun _ => trivial, fun _ => ?_⟩⟩
  refine uses_bind (user_add_account_fits hn) fun _ => ?_
  rw [sh_bind, uses_call]
  refine ⟨⟨hn, husers⟩, fun _ => ?_⟩
  refine uses_bind (user_add_password_fits hn (nl_notMem_readPass stdin)) fun _ => ?_
  refine uses_bind ?_ fun _ => ?_
  · simp only [user_add_share, sh_bind, uses_ite, uses_call]
    refine ⟨fun _ => ⟨hn, fun _ => ⟨fun _ => trivial, fun _ => ?_⟩⟩, fun _ => trivial⟩
    exact uses_bind (share_dir_fits hn h2770 hn) fun _ => share_add_block_fits hn fun _ => hn
  · split <;> trivial

theorem user_pass_fits (args : List Bytes) (stdin : Bytes) :
    (user_pass args stdin).Uses (Cmd.Fits ⟨.userPass, args, stdin⟩) := by
  refine fits_named fun hn => ?_
  have hline : ∃ l, nl ∉ l ∧ twice (readPass stdin) = twice l :=
    ⟨readPass stdin, nl_notMem_readPass stdin, rfl⟩
  simp [die, Cmd.Fits, hn, hline]

theorem user_admin_fits (args : List Bytes) (stdin : Bytes) :
    (user_admin args).Uses (Cmd.Fits ⟨.userAdmin, args, stdin⟩) := by
  have hw : smbadmins ∈ Verb.words .userAdmin := by decide
  refine fits_named fun hn => ?_
  simp [die, Cmd.Fits, hn, hw]

theorem user_del_fits (args : List Bytes) (stdin : Bytes) :
    (user_del args).Uses (Cmd.Fits ⟨.userDel, args, stdin⟩) := by
  refine fits_named fun hn => ?_
  simp only [uses_ite]
  refine ⟨fun _ => trivial, fun _ => ?_⟩
  refine uses_bind (by simp [user_del_smb, Cmd.Fits, hn]) fun _ => ?_
  refine uses_bind (share_del_block_fits hn) fun _ => ?_
  exact uses_bind (by simp [user_del_account, Cmd.Fits, hn]) fun _ => trivial

theorem serviceLines_fits {ss : List Bytes} (h : ∀ s ∈ ss, s ∈ c.verb.words) :
    (serviceLines ss).Uses (Cmd.Fits c) := by
  induction ss with
  | nil => trivial
  | cons s ss ih =>
    simp only [serviceLines, sh_bind, uses_call]
    exact ⟨h s List.mem_cons_self, fun _ =>
      uses_bind (ih fun t ht => h t (List.mem_cons_of_mem _ ht)) fun _ => trivial⟩

theorem status_fits (args : List Bytes) (stdin : Bytes) :
    status.Uses (Cmd.Fits ⟨.status, args, stdin⟩) := by
  simp only [status, sh_bind, uses_call]
  refine ⟨trivial, fun _ => ⟨trivial, fun _ => ⟨trivial, fun _ => ⟨trivial, fun _ => ?_⟩⟩⟩⟩
  refine uses_bind (serviceLines_fits fun _ => id) fun _ => ?_
  simp [Cmd.Fits]

theorem led_set_fits {color : Bytes} (h : color ∈ ledColors → color ∈ c.verb.words) :
    (led_set color).Uses (Cmd.Fits c) := by
  by_cases hc : color ∈ ledColors
  · simp [led_set, hc, Cmd.Fits, h hc]
  · simp [led_set, hc]

/-- The choice of `usb-mount`: a partition and a type of its two lists. -/
def PartOk (best : Option (Bytes × ℕ × Bytes)) : Prop :=
  ∀ b ∈ best, b.1 ∈ usbParts ∧ b.2.2 ∈ usbTypes

theorem bestPart_returns (t : Bytes) {ps : List Bytes} (hps : ∀ p ∈ ps, p ∈ usbParts)
    {best : Option (Bytes × ℕ × Bytes)} (hb : PartOk best) :
    (bestPart t ps best).Returns PartOk := by
  induction ps generalizing best with
  | nil => exact hb
  | cons p ps ih =>
    have hskip := fun best (hb : PartOk best) => ih (fun q hq => hps q (List.mem_cons_of_mem _ hq)) hb
    simp only [bestPart, sh_bind, returns_call, returns_ite]
    refine fun _ => ⟨fun _ => hskip best hb, fun _ => ⟨fun _ => hskip best hb, fun _ => ?_⟩⟩
    intro r
    cases r with
    | none => exact hskip best hb
    | some ty =>
      simp only [returns_ite]
      refine ⟨fun _ => hskip best hb, fun hty => hskip _ ?_⟩
      split
      · intro b hb'
        obtain rfl := Option.mem_some_iff.1 hb'
        exact ⟨hps p List.mem_cons_self, not_not.1 hty⟩
      · exact hb

theorem bestPart_fits (t : Bytes) {ps : List Bytes} (hps : ∀ p ∈ ps, p ∈ c.verb.words)
    (best : Option (Bytes × ℕ × Bytes)) : (bestPart t ps best).Uses (Cmd.Fits c) := by
  induction ps generalizing best with
  | nil => trivial
  | cons p ps ih =>
    have hp := hps p List.mem_cons_self
    have hskip := ih fun q hq => hps q (List.mem_cons_of_mem _ hq)
    simp only [bestPart, sh_bind, uses_call, uses_ite]
    refine ⟨hp, fun _ => ⟨fun _ => hskip best, fun _ => ⟨fun _ => hskip best, fun _ => ⟨hp, ?_⟩⟩⟩⟩
    intro r
    cases r with
    | none => exact hskip best
    | some ty =>
      simp only [uses_ite]
      exact ⟨fun _ => hskip best, fun _ => hskip _⟩

theorem usb_mount_fits (args : List Bytes) (stdin : Bytes) :
    usb_mount.Uses (Cmd.Fits ⟨.usbMount, args, stdin⟩) := by
  have hparts : ∀ p ∈ usbParts, p ∈ Verb.words .usbMount := fun _ => List.mem_append_left _
  have htypes : ∀ t ∈ usbTypes, t ∈ Verb.words .usbMount := fun _ => List.mem_append_right _
  have husb : nameRe (bytes "usb") = true := by decide
  simp only [usb_mount, sh_bind, uses_call, uses_ite]
  refine ⟨trivial, fun t => ⟨fun _ => ?_, fun _ => trivial⟩⟩
  refine ⟨trivial, fun _ => ⟨fun _ => trivial, fun _ => ⟨husb, fun _ => ?_⟩⟩⟩
  have hnone : PartOk none := fun b hb => absurd hb (Option.not_mem_none b)
  refine uses_bind_returns (bestPart_fits _ hparts none)
    (bestPart_returns _ (fun _ => id) hnone) fun best hbest => ?_
  cases best with
  | none => trivial
  | some b =>
    obtain ⟨hp, ht⟩ := hbest b rfl
    simp only [uses_call, uses_ite]
    exact ⟨trivial, fun _ => ⟨⟨htypes _ ht, hparts _ hp⟩,
      fun _ => ⟨fun _ => trivial, fun _ => trivial⟩⟩⟩

end

/-- **Whatever its arguments and whatever fails, a call runs fitting commands only.** -/
theorem panel_op_fits (c : Call) : (panel_op c.verb c.args c.stdin).Uses (Cmd.Fits c) := by
  obtain ⟨v, args, stdin⟩ := c
  cases v with
  | status => exact status_fits args stdin
  | smartFull => simp [panel_op, smart_full, Cmd.Fits]
  | smartTest =>
    simp only [panel_op, smart_test, uses_ite]
    exact ⟨fun h => ⟨by simpa [Cmd.Fits, Verb.words] using h, fun _ => trivial⟩, fun _ => trivial⟩
  | userList => simp [panel_op, user_list, Cmd.Fits, Verb.words, smbadmins]
  | userAdd => exact user_add_fits args stdin
  | userPass => exact user_pass_fits args stdin
  | userAdmin => exact user_admin_fits args stdin
  | userDel => exact user_del_fits args stdin
  | shareList => simp [panel_op, share_list, Cmd.Fits]
  | shareAdd => exact share_add_fits args stdin
  | shareDel => exact share_del_fits args stdin
  | led => exact uses_bind (led_set_fits id) fun _ => trivial
  | dlnaStatus => simp [panel_op, dlna_status, Cmd.Fits]
  | dlnaStart => simp [panel_op, dlna_start, Cmd.Fits, die, Verb.words, minidlna]
  | dlnaStop => simp [panel_op, dlna_stop, Cmd.Fits, Verb.words, minidlna]
  | usbStatus => simp [panel_op, usb_status, Cmd.Fits]
  | usbMount => exact usb_mount_fits args stdin
  | usbEject => simp [panel_op, usb_eject, Cmd.Fits, die]
  | poweroff =>
    have hy : bytes "yellow" ∈ Verb.words .poweroff := by decide
    have hf : bytes "-h" ∈ Verb.words .poweroff := by decide
    exact uses_bind (led_set_fits fun _ => hy) fun _ => ⟨hf, fun _ => trivial⟩
  | reboot =>
    have hy : bytes "yellow" ∈ Verb.words .reboot := by decide
    have hf : bytes "-r" ∈ Verb.words .reboot := by decide
    exact uses_bind (led_set_fits fun _ => hy) fun _ => ⟨hf, fun _ => trivial⟩
  | unknown => trivial

/-! ## Lines of smb.conf -/

/-- Lines of the script, their holes filled with names. -/
def PlainText (text : Bytes) : Prop :=
  ∃ ws : List Word, text = unlines (ws.map Word.text) ∧
    ∀ w ∈ ws, w.mark ∈ lineShapes ∧ ∀ h ∈ holes [w], nameRe h = true

theorem typeWords_text (n : Bytes) (typ : ShareType) (owner : Bytes) :
    (typeWords n typ owner).map Word.text = typeLines n typ owner := by
  cases typ <;> simp [typeWords, typeLines, lits, opt, Word.text]

theorem blockWords_text (n : Bytes) (typ : ShareType) (owner : Bytes) :
    unlines ((blockWords n typ owner).map Word.text) = shareBlock n typ owner := by
  have hhead : bytes "[" ++ (n ++ bytes "]") = header n := by simp [header]
  simp only [blockWords, List.map_append, List.map_cons, List.map_nil, typeWords_text, shareBlock,
    shareLines, recycleLines, lits, Word.text, List.flatMap_nil]
  simp [hhead]

theorem blockWords_marks (n : Bytes) (typ : ShareType) (owner : Bytes) :
    ((blockWords n typ owner).map Word.mark).all (fun m => decide (m ∈ lineShapes)) = true := by
  cases typ <;> rfl

theorem blockWords_holes {n owner : Bytes} {typ : ShareType} (hn : nameRe n = true)
    (ho : typ = .priv → nameRe owner = true) :
    ∀ h ∈ holes (blockWords n typ owner), nameRe h = true := by
  cases typ with
  | priv =>
    have hh : holes (blockWords n .priv owner) = [n, n, n, owner] := rfl
    simp [hh, hn, ho rfl]
  | family =>
    have hh : holes (blockWords n .family owner) = [n, n, n] := rfl
    simp [hh, hn]
  | guest =>
    have hh : holes (blockWords n .guest owner) = [n, n, n] := rfl
    simp [hh, hn]

theorem plainText_of_block {text : Bytes} (h : IsBlock text) : PlainText text := by
  obtain ⟨n, typ, owner, hn, ho, rfl⟩ := h
  refine ⟨blockWords n typ owner, (blockWords_text n typ owner).symm, fun w hw => ?_⟩
  refine ⟨?_, fun h hh => ?_⟩
  · have hall := List.all_eq_true.1 (blockWords_marks n typ owner) w.mark (List.mem_map_of_mem hw)
    exact of_decide_eq_true hall
  · refine blockWords_holes hn ho h ?_
    obtain ⟨p, hp, hph⟩ := List.mem_filterMap.1 hh
    refine List.mem_filterMap.2 ⟨p, List.mem_flatten.2 ⟨w, hw, ?_⟩, hph⟩
    simpa using hp

theorem fits_dirs {c : Call} {cmd : Cmd} (h : cmd.Fits c) {k : Bytes} (hk : nameRe k = false)
    (e : Env) (w : World) : (exec e cmd w).2.dirs.lookup k = w.dirs.lookup k := by
  have hset : ∀ n, nameRe n = true → ∀ f, (w.setDir n f).dirs.lookup k = w.dirs.lookup k := by
    intro n hn f
    have hne : k ≠ n := by
      rintro rfl
      rw [hn] at hk
      cases hk
    exact (dirOnly_setDir n w f).2 k hne
  cases cmd with
  | mkdir n =>
    have hne : k ≠ n := by
      rintro rfl
      rw [show nameRe k = true from h] at hk
      cases hk
    simp only [exec, World.makeDir]
    split_ifs
    · rfl
    · exact AList.lookup_insert_ne hne
    · rfl
  | chown o n =>
    simp only [exec]
    split
    · exact hset n h.2 _
    · rfl
  | chmod mode n =>
    simp only [exec]
    split
    · exact hset n h.2 _
    · rfl
  | usermod u g =>
    rw [exec_usermod]
    split
    · unfold World.join
      split <;> rfl
    · rfl
  | smbpasswdAdd u stdin | smbpasswdSet u stdin =>
    simp only [exec]
    split
    · split <;> rfl
    · rfl
  | _ => simp only [exec] <;> first | rfl | (split <;> rfl)

/-! ## The sections of smb.conf -/

/-- At most one section is added, its header on a line of its own; the others are old ones. -/
def AddsOne (t t' : Bytes) : Prop :=
  ∃ kept new, sections t' = kept ++ new ∧ kept.Sublist (sections t) ∧ new.length ≤ 1 ∧
    ∀ s ∈ new, ∃ n, nameRe n = true ∧ s.1 = header n ∧ header n ∈ lines t'

theorem addsOne_refl (t : Bytes) : AddsOne t t :=
  ⟨sections t, [], by simp, List.Sublist.refl _, by simp, by simp⟩

theorem addsOne_add {n owner : Bytes} {typ : ShareType} (hn : nameRe n = true)
    (ho : typ = .priv → nameRe owner = true) (t : Bytes) :
    AddsOne t (t ++ shareBlock n typ owner) := by
  have hs := sections_add t (nameRe_nl hn) fun h : typ = .priv => nameRe_nl (ho h)
  refine ⟨sections t, _, hs, List.Sublist.refl _, by simp, fun s hm => ⟨n, hn, ?_⟩⟩
  obtain rfl := List.mem_singleton.1 hm
  refine ⟨rfl, ?_⟩
  have hmem : (header n, shareLines n typ owner) ∈ sections (t ++ shareBlock n typ owner) := by
    rw [hs]
    exact List.mem_append_right _ (List.mem_singleton.2 rfl)
  obtain ⟨q, hq, he⟩ := List.mem_map.1 hmem
  rw [← (Prod.mk.inj he).1]
  exact header_mem hq

theorem addsOne_del (n t : Bytes) : AddsOne t (awkDel n t) := by
  refine ⟨sections (awkDel n t), [], by simp, ?_, by simp, by simp⟩
  rw [sections_awkDel]
  exact List.filter_sublist

theorem addsOne_exec {e : Env} (he : Copies e) (c : Call) (w : World) :
    AddsOne w.smb (c.exec e w).2.smb := by
  have h := exec_change he c w
  generalize (c.exec e w).2.smb = t' at h
  generalize c.accepted e w = ok at h
  cases h with
  | refused | userAddOnly | shareDelOnly | userDelOnly | other => exact addsOne_refl _
  | shareAdd _ hn _ _ ho => exact addsOne_add hn ho _
  | userAdd _ hn => exact addsOne_add hn (fun _ => hn) _
  | shareDel | userDel => exact addsOne_del ..

/-- The directory under `/srv/nas` that a command creates, or gives an owner or a mode. -/
def Cmd.dir? : Cmd → Option Bytes
  | .mkdir n | .chown _ n | .chmod _ n => some n
  | _ => none

theorem fits_dir {c : Call} {cmd : Cmd} (h : cmd.Fits c) : ∀ n ∈ cmd.dir?, nameRe n = true := by
  intro n hd
  cases cmd with
  | mkdir k => exact Option.mem_some_iff.1 hd ▸ h
  | chown o k => exact Option.mem_some_iff.1 hd ▸ h.2
  | chmod mode k => exact Option.mem_some_iff.1 hd ▸ h.2
  | _ => cases hd

/-- **No argument injection.** Of every call, whatever its arguments and standard input and whatever
fails: each command it runs has one of the fixed shapes, with names and words of the verb in its
holes; what a command reads is one line, twice; the lines written to smb.conf are the script's; the
directories touched have names. When no copy of smb.conf stops early, at most one section is added. -/
theorem no_injection (e : Env) (argv : List Bytes) (stdin : Bytes) (w : World) :
    let c := Call.ofArgv argv stdin
    (∀ q ∈ c.trace e w,
      (∀ line ∈ q.1.runs c, Plain c.verb line) ∧
      (∀ s ∈ q.1.stdin?, ∃ l, nl ∉ l ∧ s = twice l) ∧
      (∀ tmp text, q.1 = .append tmp text → PlainText text) ∧
      (∀ n ∈ q.1.dir?, nameRe n = true)) ∧
    (∀ k, nameRe k = false → (c.exec e w).2.dirs.lookup k = w.dirs.lookup k) ∧
    (Copies e → AddsOne w.smb (c.exec e w).2.smb) := by
  intro c
  have huses := panel_op_fits c
  refine ⟨fun q hq => ?_, fun k hk => ?_, fun he => addsOne_exec he c w⟩
  · have hfits := uses_of_trace huses hq
    refine ⟨fits_runs hfits, fun s hs => ?_, fun tmp text hq => ?_, fits_dir hfits⟩
    · obtain ⟨cmd, w₁⟩ := q
      cases cmd with
      | smbpasswdAdd u stdin | smbpasswdSet u stdin => exact Option.mem_some_iff.1 hs ▸ hfits.2
      | _ => cases hs
    · rw [hq] at hfits
      exact plainText_of_block hfits
  · exact eval_frame (fun w : World => w.dirs.lookup k) huses (fun cmd h w => fits_dirs h hk e w) w

end Panel
