import MyCloud.Cgi.Lib
import MyCloud.Panel.Op

/-!
# The pages that act

`users.cgi` and `power.cgi`: what a request makes of the box, and what the page shows of it. Every
change goes through `sudo panel-op`.
-/

set_option autoImplicit false

namespace Cgi

open Shell Panel

/-- `$SUDO $OPBIN argv`. -/
def sudo_op (e : Env) (argv : List Bytes) (stdin : Bytes) (w : World) : Except Bytes Bytes × World :=
  (Call.ofArgv argv stdin).exec e w

/-- `$(getv k)` of the request. -/
def Request.get (r : Request) (k : String) : Bytes := field (read_post r) (bytes k)

/-! ## `users.cgi` -/

/-- `printf '%s\n' "$pass"`. -/
def passLine (pass : Bytes) : Bytes := pass ++ [nl]

/-- The `case` on the action: the reply shown above the table. -/
def users_post (e : Env) (r : Request) (w : World) : Except Bytes Bytes × World :=
  let name := r.get "name"
  let pass := r.get "pass"
  if r.get "action" = bytes "add" then
    let ws := if r.get "withshare" = bytes "on" then bytes "share" else bytes "noshare"
    sudo_op e [bytes "user-add", name, ws] (passLine pass) w
  else if r.get "action" = bytes "pass" then
    sudo_op e [bytes "user-pass", name] (passLine pass) w
  else if r.get "action" = bytes "admon" then
    sudo_op e [bytes "user-admin", name, bytes "on"] [] w
  else if r.get "action" = bytes "admoff" then
    sudo_op e [bytes "user-admin", name, bytes "off"] [] w
  else if r.get "action" = bytes "del" then
    if r.get "confirm" = bytes "on" then sudo_op e [bytes "user-del", name] [] w
    else (.error (bytes "tick the confirm box to delete"), w)
  else (.error (bytes "bad action"), w)

/-- The reply, none for a request that posts nothing. -/
def users_cgi (e : Env) (r : Request) (w : World) : Option (Except Bytes Bytes) × World :=
  if r.method = POST then
    let p := users_post e r w
    (some p.1, p.2)
  else (none, w)

/-! ## `power.cgi` -/

/-- What the page says: "Tick the confirm box first.", "CLIO is shutting down now.", "Rebooting",
or the two buttons. -/
inductive PowerPage
  | confirmFirst | shuttingDown | rebooting | buttons
  deriving DecidableEq

/-- The page, and the call of `panel-op` it makes. Both the output and the status of the call go to
`/dev/null`. -/
def powerAction (r : Request) : PowerPage × Option (List Bytes) :=
  if r.method = POST then
    let act := r.get "action"
    if r.get "confirm" ≠ bytes "on" then (.confirmFirst, none)
    else if act = bytes "poweroff" then (.shuttingDown, some [bytes "poweroff"])
    else if act = bytes "reboot" then (.rebooting, some [bytes "reboot"])
    else (.buttons, none)
  else (.buttons, none)

def power_cgi (e : Env) (r : Request) (w : World) : PowerPage × World :=
  match powerAction r with
  | (page, some argv) => (page, (sudo_op e argv [] w).2)
  | (page, none) => (page, w)

end Cgi
