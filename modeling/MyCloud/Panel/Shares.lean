import Mathlib.Data.List.DropRight
import MyCloud.Panel.World

/-!
# `panel-op`: names and shares

The shared helpers (`die`, `need_name`), the two writers of smb.conf (`share_add_block`,
`share_del_block`) and the verbs `share-list`, `share-add`, `share-del`.
-/

set_option autoImplicit false

namespace Panel

open Shell

/-- A `panel-op` run: it ends with its output and status 0, or with `die` and its message. -/
abbrev Op := Script Cmd Cmd.Out Bytes

abbrev run (c : Cmd) : Op c.Out := Script.sh c

/-- `die`: the reply is `ERR: ` and the message. -/
def die {α : Type} (msg : String) : Op α := .exit (bytes msg)

/-! ## Arguments -/

/-- `${i:-}`, counting from 0. -/
def arg (args : List Bytes) (i : ℕ) : Bytes := args.getD i []

/-- `${i:-d}`. -/
def argOr (args : List Bytes) (i : ℕ) (d : Bytes) : Bytes :=
  if arg args i = [] then d else arg args i

def isLower (c : UInt8) : Bool := 'a'.toUInt8 ≤ c && c ≤ 'z'.toUInt8

def isDigit (c : UInt8) : Bool := '0'.toUInt8 ≤ c && c ≤ '9'.toUInt8

/-- `NAME_RE='^[a-z][a-z0-9]{1,15}$'`. -/
def nameRe : Bytes → Bool
  | [] => false
  | c :: cs => isLower c && cs.all (fun d => isLower d || isDigit d) &&
      decide (1 ≤ cs.length ∧ cs.length ≤ 15)

def PROTECTED_USERS : List Bytes :=
  ["root", "alpha", "daemon", "bin", "sys", "www-data", "nobody"].map bytes

def PROTECTED_SHARES : List Bytes :=
  ["global", "public", "admin", "alpha", "homes", "printers", "usb"].map bytes

def need_name (a : Bytes) : Op Unit :=
  if nameRe a then pure ()
  else .exit (bytes "invalid name '" ++ a ++ bytes "' (lowercase letters+digits, 2-16 chars)")

/-! ## Share templates -/

/-- The share types of `share-add`: `private`, `family`, `guest`. -/
inductive ShareType
  | priv | family | guest
  deriving DecidableEq

def ShareType.ofArg (a : Bytes) : Option ShareType :=
  if a = bytes "private" then some .priv
  else if a = bytes "family" then some .family
  else if a = bytes "guest" then some .guest
  else none

/-- The lines of the three here-documents of `share_add_block`. -/
def typeLines (n : Bytes) (typ : ShareType) (owner : Bytes) : List Line :=
  match typ with
  | .priv =>
    [bytes "   comment = " ++ n ++ bytes " private",
     bytes "   path = /srv/nas/" ++ n,
     bytes "   browseable = yes",
     bytes "   read only = no",
     bytes "   guest ok = no",
     bytes "   valid users = " ++ owner ++ bytes " @smbadmins",
     bytes "   force group = users",
     bytes "   create mask = 0664",
     bytes "   directory mask = 2775"]
  | .family =>
    [bytes "   comment = " ++ n ++ bytes " (family)",
     bytes "   path = /srv/nas/" ++ n,
     bytes "   browseable = yes",
     bytes "   read only = no",
     bytes "   guest ok = no",
     bytes "   valid users = @users",
     bytes "   force group = users",
     bytes "   create mask = 0664",
     bytes "   directory mask = 2775"]
  | .guest =>
    [bytes "   comment = " ++ n ++ bytes " (guest ok)",
     bytes "   path = /srv/nas/" ++ n,
     bytes "   browseable = yes",
     bytes "   read only = no",
     bytes "   guest ok = yes",
     bytes "   force group = users",
     bytes "   create mask = 0664",
     bytes "   directory mask = 2775"]

/-- The recycle bin of every share. -/
def recycleLines : List Line :=
  ["   vfs objects = recycle",
   "   recycle:repository = .recycle/%U",
   "   recycle:keeptree = yes",
   "   recycle:versions = yes",
   "   recycle:directory_mode = 0770",
   "   recycle:exclude = *.tmp,*.temp,~$*,*.TMP"].map bytes

/-- The lines of a new section, after its header. -/
def shareLines (n : Bytes) (typ : ShareType) (owner : Bytes) : List Line :=
  typeLines n typ owner ++ recycleLines

/-- What `share_add_block` appends: a blank line, the header and the section's lines. -/
def shareBlock (n : Bytes) (typ : ShareType) (owner : Bytes) : Bytes :=
  unlines ([] :: header n :: shareLines n typ owner)

def share_add_block (n : Bytes) (typ : ShareType) (owner : Bytes) : Op Unit := do
  unless ← run .mktemp do die "mktemp"
  let tmp ← run .catConf
  let tmp ← run (.append tmp (shareBlock n typ owner))
  unless ← run (.testparm tmp) do
    run .rm
    die "testparm rejected new share config"
  run (.writeConf tmp)
  run .rm
  run .reload

/-- The answer is the status: `false` for `return 1`. -/
def share_del_block (n : Bytes) : Op Bool := do
  if ← run (.grepHeader .delBlock n) then
    unless ← run .mktemp do die "mktemp"
    let tmp ← run (.awkDel n)
    unless ← run (.testparm tmp) do
      run .rm
      die "testparm rejected config after removal"
    run (.writeConf tmp)
    run .rm
    run .reload
    return true
  else
    return false

/-! ## `share-list` -/

def tab : UInt8 := '\t'.toUInt8

def space : UInt8 := ' '.toUInt8

/-- `[ \t]`. -/
def isBlank (c : UInt8) : Bool := c = space || c = tab

/-- `^[ \t]*key[ \t]*=[ \t]*`: the rest of the line. -/
def stripKey (key : Bytes) (l : Line) : Option Bytes :=
  let l := l.dropWhile isBlank
  if key <+: l then
    match (l.drop key.length).dropWhile isBlank with
    | c :: r => if c = '='.toUInt8 then some (r.dropWhile isBlank) else none
    | [] => none
  else none

/-- The variables of the `awk` program. -/
structure Fields where
  n : Bytes
  g : Bytes
  vu : Bytes
  ro : Bytes
  wl : Bytes
  deriving DecidableEq

def Fields.start : Fields := ⟨[], [], [], [], []⟩

/-- `emit()`: a record of five fields ended by tabs, for a section other than `global`. -/
def emit (f : Fields) : List Line :=
  if f.n ≠ [] ∧ f.n ≠ bytes "global" then
    [f.n ++ tab :: (f.g ++ tab :: (f.vu ++ tab :: (f.ro ++ tab :: f.wl)))]
  else []

/-- `gsub(/[\[\]]/,"",n)`. -/
def unbracket (l : Line) : Bytes := l.filter fun c => c ≠ '['.toUInt8 ∧ c ≠ ']'.toUInt8

/-- `/^[ \t]*guest ok[ \t]*=[ \t]*yes/ { g="yes" }`. -/
def guestRule (l : Line) (f : Fields) : Fields :=
  match stripKey (bytes "guest ok") l with
  | some v => if bytes "yes" <+: v then { f with g := bytes "yes" } else f
  | none => f

def readOnlyRule (l : Line) (f : Fields) : Fields :=
  match stripKey (bytes "read only") l with
  | some v => if bytes "yes" <+: v then { f with ro := bytes "yes" } else f
  | none => f

/-- `sub` leaves the value in `$0` for the next rule. -/
def validUsersRule (l : Line) (f : Fields) : Line × Fields :=
  match stripKey (bytes "valid users") l with
  | some v => (v, { f with vu := v })
  | none => (l, f)

def writeListRule (l : Line) (f : Fields) : Fields :=
  match stripKey (bytes "write list") l with
  | some v => { f with wl := v }
  | none => f

/-- The rules of the program on one line: what is printed, and the variables after it. -/
def awkLine (f : Fields) (l : Line) : List Line × Fields :=
  if isHeader l then (emit f, ⟨unbracket l, bytes "no", [], bytes "no", []⟩)
  else
    let r := validUsersRule l (readOnlyRule l (guestRule l f))
    ([], writeListRule r.1 r.2)

def awkList : Fields → List Line → List Line
  | f, [] => emit f
  | f, l :: ls => (awkLine f l).1 ++ awkList (awkLine f l).2 ls

/-- `IFS=$'\t' read -r` into `k` variables: tabs are IFS white space, so a run of them is one
separator; the last variable takes the rest of the line. -/
def readTab : ℕ → Bytes → List Bytes
  | 0, _ => []
  | 1, l => [(l.dropWhile (· = tab)).rdropWhile (· = tab)]
  | k + 2, l =>
    let l := l.dropWhile (· = tab)
    l.takeWhile (· ≠ tab) :: readTab (k + 1) (l.dropWhile (· ≠ tab))

/-- The owner: the first word of `$vu` that is no group. -/
def ownerOf (vu : Bytes) : Bytes :=
  ((records nl ((vu ++ [nl]).map fun c => if c = space then nl else c)).filter
    fun l => l.head? ≠ some '@'.toUInt8).headD []

/-- The description of a share. -/
def describe (g vu ro wl : Bytes) : Bytes :=
  if g = bytes "yes" ∧ ro = bytes "yes" ∧ wl ≠ [] then
    bytes "read: anyone · write: " ++ replaceFirst (bytes "@users") (bytes "all users") wl
  else if g = bytes "yes" then bytes "anyone on the network (guest, no password)"
  else if replaceFirst (bytes "@users") [] vu ≠ vu then bytes "all users"
  else if replaceFirst (bytes "@smbadmins") [] vu ≠ vu then
    if ownerOf vu ≠ [] then ownerOf vu ++ bytes " + admins" else bytes "admins only"
  else if vu ≠ [] then vu
  else bytes "any signed-in user"

/-- The loop over the records: one line of output each. -/
def listLine (l : Line) : Line :=
  let r := readTab 5 l
  r.getD 0 [] ++ tab :: describe (r.getD 1 []) (r.getD 2 []) (r.getD 3 []) (r.getD 4 [])

def listLines (smb : Bytes) : List Line := (awkList .start (lines smb)).map listLine

def share_list : Op Bytes := do
  let smb ← run .readConf
  return unlines (listLines smb)

/-! ## `share-add`, `share-del` -/

/-- `mkdir -p`, `chown "$o:users"`, `chmod` of a share's directory. -/
def share_dir (o mode n : Bytes) : Op Unit := do
  run (.mkdir n)
  run (.chown o n)
  run (.chmod mode n)

def share_add (args : List Bytes) : Op Bytes := do
  need_name (arg args 0)
  let n := arg args 0
  let owner := arg args 2
  if ← run (.grepHeader .verb n) then
    .exit (bytes "share [" ++ n ++ bytes "] already exists")
  match ShareType.ofArg (argOr args 1 (bytes "family")) with
  | some .priv =>
    need_name owner
    unless ← run (.id owner) do die "no such owner user"
    share_dir owner (bytes "2770") n
    share_add_block n .priv owner
    return bytes "OK: share " ++ n ++ bytes " added"
  | some typ =>
    share_dir (bytes "alpha") (bytes "2775") n
    share_add_block n typ owner
    return bytes "OK: share " ++ n ++ bytes " added"
  | none => die "bad share type"

def share_del (args : List Bytes) : Op Bytes := do
  need_name (arg args 0)
  let n := arg args 0
  if n ∈ PROTECTED_SHARES then die "protected share"
  unless ← run (.grepHeader .verb n) do die "no such share"
  let _ ← share_del_block n
  return bytes "OK: share " ++ n ++ bytes " removed (directory and files kept)"

end Panel
