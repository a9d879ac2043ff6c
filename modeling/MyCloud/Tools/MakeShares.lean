import MyCloud.Panel.Users

/-!
# `make-shares.sh`

The script that creates the accounts and the shares of a family on a running box, under `set -e`.
Every command answers with its exit status. The lines the script prints are left out, and so is the
copy of smb.conf it makes first.
-/

set_option autoImplicit false

namespace Tools

open Shell Script Panel

/-! ## Commands -/

inductive MakeCmd
  /-- `cp -an /etc/samba/smb.conf ...`. -/
  | cp
  | id (u : Bytes)
  | adduser (u : Bytes)
  | usermod (u g : Bytes)
  /-- `pdbedit -L | grep -q "^$u:"`. -/
  | pdbeditGrep (u : Bytes)
  /-- `smbpasswd -a -s u`. -/
  | smbpasswd (u stdin : Bytes)
  /-- `mkdir -p`, of directories under `/srv/nas`. -/
  | mkdir (ns : List Bytes)
  /-- `chown o:users /srv/nas/n`. -/
  | chown (o n : Bytes)
  | chmod (mode n : Bytes)
  /-- `grep -q "^\[$n\]" /etc/samba/smb.conf`. -/
  | grep (n : Bytes)
  /-- `cat >> /etc/samba/smb.conf`. -/
  | cat (text : Bytes)
  | testparm
  | reload
  /-- The last `pdbedit -L`. -/
  | pdbedit
  deriving DecidableEq

structure MakeEnv where
  outcome : MakeCmd → Outcome

def MakeEnv.ok (e : MakeEnv) (c : MakeCmd) : Bool := e.outcome c = .ok

/-- What reaches the file. -/
def MakeEnv.written (e : MakeEnv) (c : MakeCmd) (t : Bytes) : Bytes :=
  match e.outcome c with
  | .ok => t
  | .fail k => t.take k
  | .unopened => []

/-- A command: its exit status, and the state after it. -/
def MakeCmd.exec (e : MakeEnv) (c : MakeCmd) (w : World) : Bool × World :=
  match c with
  | .cp => (e.ok c, w)
  | .id u => (e.ok c && decide (u ∈ w.accounts), w)
  | .adduser u =>
    if e.ok c ∧ u ∉ w.accounts then
      (true, { w with accounts := w.accounts.insert u (w.newUid w.accounts) })
    else (false, w)
  | .usermod u g => if e.ok c ∧ u ∈ w.accounts then (true, w.join u g) else (false, w)
  | .pdbeditGrep u => (e.ok c && decide (u ∈ w.passdb), w)
  | .smbpasswd u stdin =>
    match newPassword stdin with
    | some p => if e.ok c then (true, w.setPassword u (some p)) else (false, w)
    | none => (false, w)
  | .mkdir ns => if e.ok c then (true, ns.foldl World.makeDir w) else (false, w)
  | .chown o n =>
    if e.ok c ∧ o ∈ w.accounts then
      (true, w.setDir n fun d => { d with owner := o, group := users })
    else (false, w)
  | .chmod mode n =>
    if e.ok c then (true, w.setDir n fun d => { d with mode := mode }) else (false, w)
  | .grep n => (e.ok c && hasHeader n w.smb, w)
  | .cat text => (e.ok c, { w with smb := w.smb ++ e.written c text })
  | .testparm => (e.ok c, w)
  | .reload => (e.ok c, w)
  | .pdbedit => (e.ok c, w)

abbrev Make (α : Type) := Script MakeCmd (fun _ => Bool) Unit α

/-! ## Users -/

/-- `echo`: a word of the letters `n`, `e`, `E` behind a `-` is an option, not a text. -/
def isEchoOption (s : Bytes) : Bool :=
  s.head? = some '-'.toUInt8 && s.tail ≠ [] && s.tail.all (· ∈ bytes "neE")

def echo (s : Bytes) : Bytes :=
  if isEchoOption s then if 'n'.toUInt8 ∈ s then [] else [nl] else s ++ [nl]

section
variable (TEMP_PASSWORD : Bytes)

/-- `(echo "$TEMP_PASSWORD"; echo "$TEMP_PASSWORD")`. -/
def tempInput : Bytes := echo TEMP_PASSWORD ++ echo TEMP_PASSWORD

/-- The first loop, for one user. -/
def make_user (u : Bytes) : Make Unit := do
  ensure (.id u) (.adduser u) ()
  must (.usermod u users) ()
  ensure (.pdbeditGrep u) (.smbpasswd u (tempInput TEMP_PASSWORD)) ()
  must (.mkdir [u]) ()
  must (.chown u u) ()
  must (.chmod (bytes "2770") u) ()

end

/-! ## Shares -/

def admin : Bytes := bytes "admin"

def music : Bytes := bytes "music"

/-- `chown alpha:users /srv/nas/n && chmod mode /srv/nas/n`: a failing `chown` does not end the
script. -/
def fixed_dir (n mode : Bytes) : Make Unit := do
  if ← sh (R := fun _ => Bool) (.chown alpha n) then must (.chmod mode n) ()

/-- The lines of `$RECYCLE`. -/
def RECYCLE : List Line :=
  ["   vfs objects = recycle",
   "   recycle:repository = .recycle/%U",
   "   recycle:keeptree = yes",
   "   recycle:versions = yes",
   "   recycle:directory_mode = 0770",
   "   recycle:exclude = *.tmp,*.temp,~$*,*.TMP"].map bytes

/-- The here-document of the second loop, after its header. -/
def privateLines (u : Bytes) : List Line :=
  RECYCLE ++
  [bytes "   comment = " ++ u ++ bytes " private",
   bytes "   path = /srv/nas/" ++ u,
   bytes "   browseable = yes",
   bytes "   read only = no",
   bytes "   guest ok = no",
   bytes "   valid users = " ++ u ++ bytes " @smbadmins",
   bytes "   force group = users",
   bytes "   create mask = 0664",
   bytes "   directory mask = 2775"]

def adminLines : List Line :=
  RECYCLE ++
  ["   comment = Admin (admins only)",
   "   path = /srv/nas/admin",
   "   browseable = yes",
   "   read only = no",
   "   guest ok = no",
   "   valid users = @smbadmins",
   "   create mask = 0660",
   "   directory mask = 2770"].map bytes

def musicLines : List Line :=
  RECYCLE ++
  ["   comment = music (guest ok)",
   "   path = /srv/nas/music",
   "   browseable = yes",
   "   read only = no",
   "   guest ok = yes",
   "   force group = users",
   "   create mask = 0664",
   "   directory mask = 2775"].map bytes

/-- A here-document: a blank line, the header and the lines of the section. -/
def hereDoc (n : Bytes) (ls : List Line) : Bytes := unlines ([] :: header n :: ls)

/-- `if ! grep -q "^\[$n\]" ...; then cat >> ...; fi`. -/
def make_share (n : Bytes) (ls : List Line) : Make Unit :=
  ensure (.grep n) (.cat (hereDoc n ls)) ()

/-! ## The script -/

def make_shares (FAMILY : List Bytes) (TEMP_PASSWORD : Bytes) : Make Unit := do
  must .cp ()
  forEach (make_user TEMP_PASSWORD) FAMILY
  must (.usermod alpha users) ()
  must (.mkdir [admin, music]) ()
  fixed_dir admin (bytes "2770")
  fixed_dir music (bytes "2775")
  forEach (fun u => make_share u (privateLines u)) FAMILY
  make_share admin adminLines
  make_share music musicLines
  must .testparm ()
  must .reload ()
  must .pdbedit ()

end Tools
