import MyCloud.Panel.Devices
import MyCloud.Panel.Users

/-!
# `panel-op`: one call

`panel_op`: the dispatch on the verb. `Call`: a call with its arguments and standard input;
`Call.exec e c w`: the reply (`.ok` the output, `.error` the message after `ERR: `) and the state
left behind, `Call.trace` the commands it runs. `Call.ofArgv` reads a call off the argument vector.
-/

set_option autoImplicit false

namespace Panel

open Shell

inductive Verb
  | status | smartFull | smartTest
  | userList | userAdd | userPass | userAdmin | userDel
  | shareList | shareAdd | shareDel
  | led | dlnaStatus | dlnaStart | dlnaStop | usbStatus | usbMount | usbEject
  | poweroff | reboot
  | unknown (verb : Bytes)
  deriving DecidableEq

/-- The patterns of `case "$verb"`. -/
def verbs : List (Bytes × Verb) :=
  [("status", .status), ("smart-full", .smartFull), ("smart-test", .smartTest),
   ("user-list", .userList), ("user-add", .userAdd), ("user-pass", .userPass),
   ("user-admin", .userAdmin), ("user-del", .userDel), ("share-list", .shareList),
   ("share-add", .shareAdd), ("share-del", .shareDel), ("led", .led),
   ("dlna-status", .dlnaStatus), ("dlna-start", .dlnaStart), ("dlna-stop", .dlnaStop),
   ("usb-status", .usbStatus), ("usb-mount", .usbMount), ("usb-eject", .usbEject),
   ("poweroff", .poweroff), ("reboot", .reboot)].map fun p => (bytes p.1, p.2)

def Verb.ofArg (a : Bytes) : Verb := ((verbs.lookup a).getD (.unknown a))

def panel_op (verb : Verb) (args : List Bytes) (stdin : Bytes) : Op Bytes :=
  match verb with
  | .status => status
  | .smartFull => smart_full
  | .smartTest => smart_test args
  | .userList => user_list
  | .userAdd => user_add args stdin
  | .userPass => user_pass args stdin
  | .userAdmin => user_admin args
  | .userDel => user_del args
  | .shareList => share_list
  | .shareAdd => share_add args
  | .shareDel => share_del args
  | .led => led args
  | .dlnaStatus => dlna_status
  | .dlnaStart => dlna_start
  | .dlnaStop => dlna_stop
  | .usbStatus => usb_status
  | .usbMount => usb_mount
  | .usbEject => usb_eject
  | .poweroff => poweroff
  | .reboot => reboot
  | .unknown verb => .exit (bytes "unknown verb '" ++ verb ++ bytes "'")

structure Call where
  verb : Verb
  args : List Bytes
  stdin : Bytes
  deriving DecidableEq

/-- `verb=${1:-help}; shift || true`. -/
def Call.ofArgv (argv : List Bytes) (stdin : Bytes) : Call :=
  ⟨.ofArg (argOr argv 0 (bytes "help")), argv.drop 1, stdin⟩

def Call.exec (e : Env) (c : Call) (w : World) : Except Bytes Bytes × World :=
  (panel_op c.verb c.args c.stdin).eval (Panel.exec e) w

/-- The commands of a call, each with the state it meets. -/
def Call.trace (e : Env) (c : Call) (w : World) : List (Cmd × World) :=
  (panel_op c.verb c.args c.stdin).trace (Panel.exec e) w

/-- The call runs the command. -/
def Call.Issues (e : Env) (c : Call) (w : World) (cmd : Cmd) : Prop :=
  ∃ w', (cmd, w') ∈ c.trace e w

end Panel
