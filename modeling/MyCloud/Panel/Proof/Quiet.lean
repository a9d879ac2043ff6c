import MyCloud.Panel.Op

/-!
# The verbs that only look

`quiet_core`: the verbs outside `Verb.writes` touch no share and no user. Every command they can
issue is `Quiet` (`panel_op_quiet`), and a quiet command leaves those stores alone (`exec_quiet`).
-/

set_option autoImplicit false

namespace Panel

open Shell Script

/-- The verbs that change smb.conf, an account, a group or an SMB account. -/
def Verb.writes : Verb → Bool
  | .userAdd | .userPass | .userAdmin | .userDel | .shareAdd | .shareDel => true
  | _ => false

/-- The stores of users and shares, and the uids for new users. -/
def World.core (w : World) := (w.smb, w.accounts, w.groups, w.passdb, w.newUid)

/-- The commands that leave the stores of users and shares alone. -/
def Cmd.Quiet : Cmd → Prop
  | .adduser _ | .usermod _ _ | .gpasswd _ _ | .deluser _ | .smbpasswdAdd _ _ => False
  | .smbpasswdSet _ _ | .smbpasswdNull _ | .smbpasswdDel _ | .writeConf _ => False
  | _ => True

theorem exec_quiet (e : Env) (c : Cmd) (hc : c.Quiet) (w : World) :
    (exec e c w).2.core = w.core := by
  cases c with
  | adduser | usermod | gpasswd | deluser | smbpasswdAdd | smbpasswdSet | smbpasswdNull
  | smbpasswdDel | writeConf => cases hc
  | mkdir n =>
    simp only [exec, World.makeDir]
    split
    · split <;> rfl
    · rfl
  | chown o n =>
    simp only [exec, World.setDir]
    split
    · split <;> rfl
    · rfl
  | chmod m n =>
    simp only [exec, World.setDir]
    split
    · split <;> rfl
    · rfl
  | _ => simp only [exec] <;> first | rfl | (split <;> rfl)

theorem quiet_smb {c : Cmd} (e : Env) (hc : c.Quiet) (w : World) : (exec e c w).2.smb = w.smb :=
  congrArg (·.1) (exec_quiet e c hc w)

theorem quiet_passdb {c : Cmd} (e : Env) (hc : c.Quiet) (w : World) :
    (exec e c w).2.passdb = w.passdb :=
  congrArg (·.2.2.2.1) (exec_quiet e c hc w)

theorem serviceLines_quiet (ss : List Bytes) : (serviceLines ss).Uses Cmd.Quiet := by
  induction ss with
  | nil => trivial
  | cons s ss ih =>
    simp only [serviceLines, sh_bind, uses_call]
    exact ⟨trivial, fun _ => uses_bind ih fun _ => trivial⟩

theorem bestPart_quiet (t : Bytes) (ps : List Bytes) (best : Option (Bytes × ℕ × Bytes)) :
    (bestPart t ps best).Uses Cmd.Quiet := by
  induction ps generalizing best with
  | nil => trivial
  | cons p ps ih =>
    simp only [bestPart, sh_bind, uses_call, uses_ite]
    refine ⟨trivial, fun _ => ⟨fun _ => ih _, fun _ => ⟨fun _ => ih _, fun _ => ?_⟩⟩⟩
    refine ⟨trivial, fun r => ?_⟩
    cases r with
    | none => exact ih _
    | some t =>
      simp only [uses_ite]
      exact ⟨fun _ => ih _, fun _ => ih _⟩

theorem led_set_quiet (color : Bytes) : (led_set color).Uses Cmd.Quiet := by
  simp [led_set, Cmd.Quiet]

theorem panel_op_quiet {v : Verb} (hv : v.writes = false) (args : List Bytes) (stdin : Bytes) :
    (panel_op v args stdin).Uses Cmd.Quiet := by
  cases v with
  | userAdd | userPass | userAdmin | userDel | shareAdd | shareDel => cases hv
  | status =>
    simp only [panel_op, status, sh_bind, uses_call]
    refine ⟨trivial, fun _ => ⟨trivial, fun _ => ⟨trivial, fun _ => ⟨trivial, fun _ => ?_⟩⟩⟩⟩
    exact uses_bind (serviceLines_quiet _) fun _ => by simp [Cmd.Quiet]
  | usbMount =>
    simp only [panel_op, usb_mount, sh_bind, uses_call, uses_ite]
    refine ⟨trivial, fun _ => ⟨fun _ => ⟨trivial, fun _ => ⟨fun _ => trivial, fun _ => ?_⟩⟩,
      fun _ => trivial⟩⟩
    refine ⟨trivial, fun _ => uses_bind (bestPart_quiet _ _ _) fun best => ?_⟩
    cases best with
    | none => trivial
    | some b => simp [Cmd.Quiet, die]
  | led => exact uses_bind (led_set_quiet _) fun _ => trivial
  | smartFull => simp [panel_op, smart_full, Cmd.Quiet]
  | smartTest => simp [panel_op, smart_test, Cmd.Quiet, die]
  | userList => simp [panel_op, user_list, Cmd.Quiet]
  | shareList => simp [panel_op, share_list, Cmd.Quiet]
  | dlnaStatus => simp [panel_op, dlna_status, Cmd.Quiet]
  | dlnaStart => simp [panel_op, dlna_start, Cmd.Quiet, die]
  | dlnaStop => simp [panel_op, dlna_stop, Cmd.Quiet]
  | usbStatus => simp [panel_op, usb_status, Cmd.Quiet]
  | usbEject => simp [panel_op, usb_eject, Cmd.Quiet, die]
  | poweroff => exact uses_bind (led_set_quiet _) fun _ => by simp [Cmd.Quiet]
  | reboot => exact uses_bind (led_set_quiet _) fun _ => by simp [Cmd.Quiet]
  | unknown => trivial

/-! ## One call -/

/-- Is the reply OK? -/
def Call.accepted (e : Env) (c : Call) (w : World) : Bool := (c.exec e w).1.isOk

theorem Call.accepted_iff {e : Env} {c : Call} {w : World} :
    c.accepted e w = true ↔ ∃ m w', c.exec e w = (.ok m, w') := by
  unfold Call.accepted
  rcases c.exec e w with ⟨m | m, w'⟩ <;> simp [Except.isOk, Except.toBool]

theorem Call.not_accepted_iff {e : Env} {c : Call} {w : World} :
    c.accepted e w = false ↔ ∃ m w', c.exec e w = (.error m, w') := by
  unfold Call.accepted
  rcases c.exec e w with ⟨m | m, w'⟩ <;> simp [Except.isOk, Except.toBool]

/-- The name a call is about. -/
abbrev Call.name (c : Call) : Bytes := arg c.args 0

/-- The share type a `share-add` asks for. -/
abbrev Call.shareType (c : Call) : Option ShareType :=
  ShareType.ofArg (argOr c.args 1 (bytes "family"))

/-- Does a `user-add` ask for a private share? -/
abbrev Call.withShare (c : Call) : Prop := argOr c.args 1 (bytes "share") = bytes "share"

theorem quiet_core {c : Call} (hc : c.verb.writes = false) (e : Env) (w : World) :
    (c.exec e w).2.core = w.core :=
  eval_frame World.core (panel_op_quiet hc c.args c.stdin) (fun c hc w => exec_quiet e c hc w) w

end Panel
