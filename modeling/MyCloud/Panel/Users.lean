import MyCloud.Panel.Shares

/-!
# `panel-op`: users

The verbs `user-list`, `user-add`, `user-pass`, `user-admin`, `user-del`.
-/

set_option autoImplicit false

namespace Panel

open Shell

/-- `IFS= read -r pass || pass=""`: the first line of the input, empty if no newline ends it. -/
def readPass (stdin : Bytes) : Bytes :=
  if nl ∈ stdin then (stdin.takeWhile (· ≠ nl)).filter (· ≠ 0) else []

/-- `printf '%s\n%s\n' "$pass" "$pass"`. -/
def twice (pass : Bytes) : Bytes := unlines [pass, pass]

def smbadmins : Bytes := bytes "smbadmins"

def users : Bytes := bytes "users"

def alpha : Bytes := bytes "alpha"

/-! ## `user-list` -/

def comma : UInt8 := ','.toUInt8

/-- `",$(getent group smbadmins | cut -d: -f4),"`. -/
def adminsText (members : List Bytes) : Bytes :=
  comma :: (List.intercalate [comma] members ++ [comma])

/-- `[ "$u" = alpha ] || [ "${admins/,$u,/}" != "$admins" ]`. -/
def markedAdmin (admins u : Bytes) : Bool :=
  u = alpha || replaceFirst (comma :: (u ++ [comma])) [] admins ≠ admins

def userLine (admins u : Bytes) : Line :=
  u ++ tab :: if markedAdmin admins u then bytes "admin" else bytes "-"

def user_list : Op Bytes := do
  let admins := adminsText (← run (.getent smbadmins))
  let us ← run .pdbedit
  return unlines (us.map (userLine admins))

/-! ## Accounts -/

/-- `id -u "$u" || adduser ... || die`. -/
def user_add_account (u : Bytes) : Op Unit := do
  unless ← run (.id u) do
    unless ← run (.adduser u) do die "adduser failed"

/-- The SMB account with the password, or with none: set to a constant, then removed. -/
def user_add_password (u pass : Bytes) : Op Unit := do
  if pass ≠ [] then
    unless ← run (.smbpasswdAdd u (twice pass)) do die "smbpasswd failed"
  else
    unless ← run (.smbpasswdAdd u (twice (bytes "Temp0Pass1"))) do die "smbpasswd failed"
    unless ← run (.smbpasswdNull u) do die "smbpasswd -n failed"

/-- The private share, unless the name has a section. -/
def user_add_share (u withshare : Bytes) : Op Unit := do
  if withshare = bytes "share" then
    unless ← run (.grepHeader .verb u) do
      share_dir u (bytes "2770") u
      share_add_block u .priv u

def user_add (args : List Bytes) (stdin : Bytes) : Op Bytes := do
  need_name (arg args 0)
  let u := arg args 0
  let withshare := argOr args 1 (bytes "share")
  let pass := readPass stdin
  if pass ≠ [] ∧ pass.length < 4 then die "password too short (min 4 chars, or blank for none)"
  if u ∈ PROTECTED_USERS then die "protected name"
  user_add_account u
  run (.usermod u users)
  user_add_password u pass
  user_add_share u withshare
  if pass ≠ [] then
    return bytes "OK: user " ++ u ++ bytes " created"
  else
    return bytes "OK: user " ++ u ++ bytes " created (no password)"

def user_pass (args : List Bytes) (stdin : Bytes) : Op Bytes := do
  need_name (arg args 0)
  let u := arg args 0
  let pass := readPass stdin
  if pass ≠ [] ∧ pass.length < 4 then die "password too short (min 4 chars, or blank for none)"
  unless u ∈ (← run .pdbedit) do die "no such SMB user"
  if pass ≠ [] then
    unless ← run (.smbpasswdSet u (twice pass)) do die "smbpasswd failed"
    return bytes "OK: password set for " ++ u
  else
    unless ← run (.smbpasswdNull u) do die "smbpasswd failed"
    return bytes "OK: " ++ u ++ bytes " now has no password"

def user_admin (args : List Bytes) : Op Bytes := do
  need_name (arg args 0)
  let u := arg args 0
  let state := arg args 1
  if u = alpha then die "alpha is always admin"
  unless ← run (.id u) do die "no such user"
  if state = bytes "on" then
    run (.usermod u smbadmins)
    return bytes "OK: " ++ u ++ bytes " is now an admin (access to all shares)"
  else if state = bytes "off" then
    run (.gpasswd u smbadmins)
    return bytes "OK: " ++ u ++ bytes " is no longer an admin"
  else
    die "bad admin state"

/-- `pdbedit -L | grep -q "^$u:" && smbpasswd -x "$u"`. -/
def user_del_smb (u : Bytes) : Op Unit := do
  if u ∈ (← run .pdbedit) then
    run (.smbpasswdDel u)

/-- `id -u "$u" && deluser "$u"`. -/
def user_del_account (u : Bytes) : Op Unit := do
  if ← run (.id u) then
    run (.deluser u)

/-- `share_del_block "$u" || true` ignores the status, not a `die` inside. -/
def user_del (args : List Bytes) : Op Bytes := do
  need_name (arg args 0)
  let u := arg args 0
  if u ∈ PROTECTED_USERS then die "protected user"
  user_del_smb u
  let _ ← share_del_block u
  user_del_account u
  return bytes "OK: user " ++ u ++ bytes " removed (their files under /srv/nas are kept)"

end Panel
