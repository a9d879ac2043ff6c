import MyCloud.Cgi.Status

/-!
# The pages with tables

`shares.cgi` with its `POST`, and what `shares.cgi` and `users.cgi` print: the top of a page, the
reply, a row with its forms for each line of `share-list` or `user-list`, the form to add one.
-/

set_option autoImplicit false

namespace Cgi

open Shell Panel

/-! ## `lib.sh` -/

def http_header : Bytes := bytes "Content-Type: text/html; charset=utf-8\r\n\r\n"

/-- `sed 's/c/text/g'`. -/
def sedAll (c : UInt8) (text t : Bytes) : Bytes := t.flatMap fun d => if d = c then text else [d]

/-- `sed 's/&/\&amp;/g; s/</\&lt;/g; s/>/\&gt;/g'`. -/
def esc (t : Bytes) : Bytes :=
  sedAll '>'.toUInt8 (bytes "&gt;")
    (sedAll '<'.toUInt8 (bytes "&lt;") (sedAll '&'.toUInt8 (bytes "&amp;") t))

/-- The style sheet of every page. -/
def styleLines : List Line :=
  ["<style>",
   " body\x7bfont-family:system-ui,sans-serif;margin:1.2em;max-width:52em;background:#fff;color:#222\x7d",
   " nav\x7bmargin-bottom:1em;padding-bottom:.5em;border-bottom:1px solid #ccc\x7d",
   " nav a\x7bmargin-right:1.2em;text-decoration:none;font-weight:bold\x7d",
   " table\x7bborder-collapse:collapse;margin:.5em 0\x7d",
   " td,th\x7bborder:1px solid #bbb;padding:.3em .6em;text-align:left;vertical-align:top\x7d",
   " .ok\x7bcolor:#0a7a0a\x7d.bad\x7bcolor:#c00;font-weight:bold\x7d.warn\x7bcolor:#b87700\x7d",
   " pre\x7bbackground:#f4f4f4;padding:.6em;overflow-x:auto;font-size:.85em\x7d",
   " form.inline\x7bdisplay:inline\x7d",
   " input[type=submit].danger\x7bcolor:#c00\x7d",
   " small\x7bcolor:#666\x7d",
   "</style></head><body>"].map bytes

/-- `page_top`, behind the header. -/
def page_top (title : Bytes) : Bytes :=
  unlines ([bytes "<!doctype html><html><head><meta charset=\"utf-8\">",
    bytes "<meta name=\"viewport\" content=\"width=device-width,initial-scale=1\">",
    bytes "<title>" ++ title ++ bytes " — CLIO</title>"] ++ styleLines ++
   [bytes ("<nav><a href=\"/\">Status</a><a href=\"/users.cgi\">Users</a>" ++
      "<a href=\"/shares.cgi\">Shares</a><a href=\"/smart.cgi\">Disk</a>" ++
      "<a href=\"/power.cgi\">Power</a></nav>"),
    bytes "<h1>" ++ title ++ bytes "</h1>"])

def page_end : Bytes := bytes "</body></html>\n"

/-- `$(... 2>&1)` of a call, empty if there was none. -/
def answer : Option (Except Bytes Bytes) → Bytes
  | none => []
  | some reply => subst (printed reply)

/-- `msg=$(printf '%s' "$out" | esc)`. -/
def message (reply : Option (Except Bytes Bytes)) : Bytes := subst (esc (answer reply))

/-- `[ -n "$msg" ] && echo "<p><b>$msg</b></p>"`. -/
def messageLine (msg : Bytes) : Bytes :=
  if msg = [] then [] else bytes "<p><b>" ++ msg ++ bytes "</b></p>\n"

/-- What `verb` prints, with its errors to `/dev/null`, line by line into two variables. -/
def tableRows (e : Env) (verb : Bytes) (w : World) : List (Bytes × Bytes) :=
  match (sudo_op e [verb] [] w).1 with
  | .ok t => (lines t).map fun l => ((readTab 2 l).getD 0 [], (readTab 2 l).getD 1 [])
  | .error _ => []

/-! ## `shares.cgi` -/

def PROTECTED : Bytes := bytes "global public admin alpha homes printers"

/-- `case " $PROTECTED " in *" $1 "*)`. -/
def is_protected (s : Bytes) : Bool := space :: s ++ [space] <:+: space :: PROTECTED ++ [space]

/-- The `case` on the action. -/
def shares_post (e : Env) (r : Request) (w : World) : Except Bytes Bytes × World :=
  if r.get "action" = bytes "add" then
    sudo_op e [bytes "share-add", r.get "name", r.get "type", r.get "owner"] [] w
  else if r.get "action" = bytes "del" then
    if r.get "confirm" = bytes "on" then sudo_op e [bytes "share-del", r.get "name"] [] w
    else (.error (bytes "tick the confirm box to remove"), w)
  else (.error (bytes "bad action"), w)

def shares_cgi (e : Env) (r : Request) (w : World) : Option (Except Bytes Bytes) × World :=
  if r.method = POST then
    let p := shares_post e r w
    (some p.1, p.2)
  else (none, w)

/-- The two cells and the form of a share. -/
def shareRow (row : Bytes × Bytes) : Bytes :=
  let s := row.1
  bytes "<tr><td><b>\\\\CLIO\\" ++ s ++ bytes "</b></td><td>" ++ subst (esc row.2) ++
    bytes "</td>\n" ++
  (if is_protected s then bytes "<td><small>(protected)</small></td>\n"
   else bytes ("<td><form class=inline method=post><input type=hidden name=action value=del>" ++
      "<input type=hidden name=name value=") ++ s ++
    bytes ("><label><input type=checkbox name=confirm> confirm</label> " ++
      "<input class=danger type=submit value=Remove></form></td>\n")) ++
  bytes "</tr>\n"

/-- The here-document with the form "Add share". -/
def addShare : Bytes :=
  unlines (["<h2>Add share</h2>",
    "<form method=post>",
    "<input type=hidden name=action value=add>",
    "Name: <input name=name pattern=\"[a-z][a-z0-9]\x7b1,15\x7d\" title=\"lowercase letters+digits\" required>",
    "Type: <select name=type>",
    "<option value=family>family (all users read/write)</option>",
    "<option value=private>private (one owner + alpha)</option>",
    "<option value=guest>guest (no password, e.g. media players)</option>",
    "</select>",
    "Owner (private only): <input name=owner size=10>",
    "<input type=submit value=Add>",
    "</form>",
    "<p><small>Directory is created under /srv/nas/&lt;name&gt;. Removing a share",
    "never deletes files — it only stops sharing them.</small></p>"].map bytes)

def shares_body (msg : Bytes) (rows : List (Bytes × Bytes)) : Bytes :=
  page_top (bytes "Shares") ++ messageLine msg ++
  bytes ("<h2>Current shares</h2>\n" ++
    "<table><tr><th>Share</th><th>Who has access</th><th>Remove</th></tr>\n") ++
  rows.flatMap shareRow ++ bytes "</table>\n" ++ addShare ++ page_end

/-- The page that answers a request, and what the request made of the box. -/
def shares_page (e : Env) (r : Request) (w : World) : Bytes × World :=
  let p := shares_cgi e r w
  (http_header ++ shares_body (message p.1) (tableRows e (bytes "share-list") p.2), p.2)

/-! ## `users.cgi` -/

/-- A form of one hidden action for the user. -/
def userForm (action u controls : Bytes) : Bytes :=
  bytes "<form class=inline method=post><input type=hidden name=action value=" ++ action ++
    bytes "><input type=hidden name=name value=" ++ u ++ bytes ">" ++ controls ++ bytes "</form>"

/-- The cells and the forms of a user. -/
def userRow (row : Bytes × Bytes) : Bytes :=
  let u := row.1
  bytes "<tr><td><b>" ++ u ++ bytes "</b></td>\n" ++
  (if u = alpha then bytes "<td class=ok>yes (always)</td>\n"
   else if row.2 = bytes "admin" then
    bytes "<td><span class=ok>yes</span> " ++
      userForm (bytes "admoff") u (bytes "<input type=submit value=Revoke>") ++ bytes "</td>\n"
   else bytes "<td>&mdash; " ++
      userForm (bytes "admon") u (bytes "<input type=submit value='Make admin'>") ++
      bytes "</td>\n") ++
  bytes "<td>" ++ userForm (bytes "pass") u
    (bytes "<input name=pass type=password size=10> <input type=submit value=Set>") ++
  bytes "</td>\n" ++
  (if u = alpha then bytes "<td><small>(protected)</small></td>\n"
   else bytes "<td>" ++ userForm (bytes "del") u
      (bytes ("<label><input type=checkbox name=confirm> confirm</label> " ++
        "<input class=danger type=submit value=Delete>")) ++ bytes "</td>\n") ++
  bytes "</tr>\n"

/-- The here-document with the form "Add user". -/
def addUser : Bytes :=
  unlines (["<h2>Add user</h2>",
    "<form method=post>",
    "<input type=hidden name=action value=add>",
    "Name: <input name=name pattern=\"[a-z][a-z0-9]\x7b1,15\x7d\" title=\"lowercase letters+digits\" required>",
    "Password: <input name=pass type=password> <small>(blank = no password asked)</small>",
    "<label><input type=checkbox name=withshare checked> create private share</label>",
    "<input type=submit value=Add>",
    "</form>",
    "<p><small>Admins can open every share. Deleting a user keeps their files",
    "under /srv/nas (only access is removed). Setting an empty password in",
    "the password box removes the password. Passwords here are SMB",
    "passwords — what Windows asks for.</small></p>"].map bytes)

def users_body (msg : Bytes) (rows : List (Bytes × Bytes)) : Bytes :=
  page_top (bytes "Users") ++ messageLine msg ++
  bytes ("<h2>SMB users</h2>\n" ++ "<table><tr><th>User</th><th>Admin</th>" ++
    "<th>Set new password</th><th>Remove</th></tr>\n") ++
  rows.flatMap userRow ++ bytes "</table>\n" ++ addUser ++ page_end

def users_page (e : Env) (r : Request) (w : World) : Bytes × World :=
  let p := users_cgi e r w
  (http_header ++ users_body (message p.1) (tableRows e (bytes "user-list") p.2), p.2)

end Cgi
