import MyCloud.Cgi.Pages
import MyCloud.Panel.LedStatus

/-!
# `index.cgi`

The status page: the action of a POST, then the table made of the sections of `panel-op status`.
-/

set_option autoImplicit false

namespace Cgi

open Shell Panel

/-- What `panel-op` prints. -/
def printed : Except Bytes Bytes → Bytes
  | .ok t => t
  | .error m => bytes "ERR: " ++ m ++ [nl]

/-! ## Sections -/

/-- `/^## /`. -/
def isHeading (l : Line) : Bool := bytes "## " <+: l

/-- `$0==s{f=1;next} /^## /{f=0} f`, with the flag `f`. -/
def secLines (s : Line) : Bool → List Line → List Line
  | _, [] => []
  | f, l :: ls =>
    if l = s then secLines s true ls
    else
      let f := if isHeading l then false else f
      if f then l :: secLines s f ls else secLines s f ls

/-- `getsec k`, captured, for the captured output `S` of `panel-op status`. -/
def getsec (S k : Bytes) : Bytes :=
  subst (unlines (secLines (bytes "## " ++ k) false (lines (S ++ [nl]))))

/-! ## The page -/

/-- The SMART row: "PASSED", "disk in standby", "FAILED — back up data and replace the disk!", or
the text itself as a warning. -/
inductive SmartCell
  | passed | standby | failed
  | warning (text : Bytes)
  deriving DecidableEq

def smartCell (smart : Bytes) : SmartCell :=
  if smart = bytes "PASSED" then .passed
  else if smart = bytes "standby" then .standby
  else if smart = bytes "FAILED" then .failed
  else .warning smart

structure StatusTable where
  smart : SmartCell
  /-- The RAID row says DEGRADED. -/
  raidDegraded : Bool
  raidLine : Bytes
  uptime : Bytes
  mem : Bytes
  led : Bytes
  deriving DecidableEq

def statusTable (S : Bytes) : StatusTable where
  smart := smartCell (getsec S (bytes "smart"))
  raidDegraded := degraded (getsec S (bytes "md"))
  raidLine := (lines (getsec S (bytes "md") ++ [nl])).headD []
  uptime := getsec S (bytes "uptime")
  mem := getsec S (bytes "mem")
  led := getsec S (bytes "led")

/-- The `case` on the action: the message above the table. -/
def index_post (e : Env) (r : Request) (w : World) : Bytes × World :=
  if r.method = POST ∧ r.get "action" ∈
      ["usb-mount", "usb-eject", "dlna-start", "dlna-stop"].map bytes then
    let p := sudo_op e [r.get "action"] [] w
    (subst (printed p.1), p.2)
  else ([], w)

/-- The message and the table. -/
def index_cgi (e : Env) (r : Request) (w : World) : (Bytes × StatusTable) × World :=
  let p := index_post e r w
  let s := sudo_op e [bytes "status"] [] p.2
  ((p.1, statusTable (subst (printed s.1))), s.2)

end Cgi
