import MyCloud.Shell.Expand
import MyCloud.Panel.Devices

/-!
# `alignment-scan.sh`

The scan of a tree for shared objects whose LOAD segments a kernel with 64 KB pages cannot map: the
loops over roots, files and segments, with the shell's variables in one record (`Vars`), since the
helper functions declare none of theirs local.

`tree root` is what lies under a root, in the order of `find`; `readelf` is the output of `readelf -lW`.
-/

set_option autoImplicit false

namespace Tools

open Shell Panel

/-! ## Files -/

inductive FileType
  | regular | symlink | other
  deriving DecidableEq

structure File where
  /-- The path, as `find` prints it. -/
  path : Bytes
  type : FileType
  perm : BitVec 12
  /-- What reading the path gives, empty when it cannot be read. -/
  content : Bytes
  /-- The alignment of each LOAD segment, in order. -/
  loads : List (BitVec 64)
  deriving DecidableEq

def slash : UInt8 := '/'.toUInt8

/-- `basename`: what follows the last slash, slashes at the end apart. -/
def basename (p : Bytes) : Bytes := (p.rdropWhile (· = slash)).rtakeWhile (· ≠ slash)

/-- `\( -type f -o -type l \) \( -name '*.so*' -o -perm -111 \)`. -/
def found (f : File) : Bool :=
  (f.type = .regular || f.type = .symlink) &&
    (decide (bytes ".so" <:+: basename f.path) || f.perm &&& 0o111#12 = 0o111#12)

def find (tree : Bytes → List File) (root : Bytes) : List File := (tree root).filter found

def lowerHexDigit (n : ℕ) : UInt8 := UInt8.ofNat (if n < 10 then 48 + n else 87 + n)

/-- `od -An -tx1`. -/
def od (t : Bytes) : Bytes :=
  t.flatMap (fun c => [space, lowerHexDigit (c.toNat / 16), lowerHexDigit (c.toNat % 16)]) ++ [nl]

/-- `[ "$(head -c4 "$f" | od -An -tx1 | tr -d ' \n')" = "7f454c46" ]`. -/
def isElf (f : File) : Bool :=
  (od (f.content.take 4)).filter (fun c => c ≠ space ∧ c ≠ nl) = bytes "7f454c46"

/-! ## Segments -/

/-- `awk '$1 == "LOAD" { print $NF }'` on one line. -/
def loadField (l : Line) : Option Bytes :=
  if (fieldsOf l).head? = some (bytes "LOAD") then (fieldsOf l).getLast? else none

/-- The words of `$(readelf -lW "$f" | awk '$1 == "LOAD" { print $NF }')`. -/
def loadWords (out : Bytes) : List Bytes :=
  fieldsOf ((subst (unlines ((lines out).filterMap loadField))).map
    fun c => if c = nl then space else c)

/-- The value of digits in base `b`, after `n`. -/
def inBase (b : ℕ) : Bytes → ℕ → Option ℕ
  | [], n => some n
  | c :: s, n => (hexValue c).bind fun d => if d < b then inBase b s (n * b + d) else none

/-- A constant of shell arithmetic: hexadecimal, octal or decimal. -/
def constant (s : Bytes) : Option ℕ :=
  if s = [] then none
  else if bytes "0x" <+: s ∨ bytes "0X" <+: s then
    if s.length = 2 then none else inBase 16 (s.drop 2) 0
  else if s.head? = some '0'.toUInt8 then inBase 8 s 0
  else inBase 10 s 0

def pageSize : ℕ := 0x10000

/-- `[ $((a)) -lt $((0x10000)) ]`, in the signed 64-bit arithmetic of the shell. -/
def isBelow (a : BitVec 64) : Bool := a.toInt < pageSize

/-- The same test for a word that `readelf` prints. -/
def below (a : Bytes) : Bool := (constant a).any fun n => isBelow (.ofNat 64 n)

/-! ## Rows -/

inductive Kind
  | note | okKnown | misaligned
  deriving DecidableEq

structure Row where
  kind : Kind
  /-- `$a`. -/
  word : Bytes
  /-- `$f`. -/
  path : Bytes
  deriving DecidableEq

/-- `%-8s`. -/
def pad8 (s : Bytes) : Bytes := s ++ List.replicate (8 - s.length) space

def Row.text (r : Row) : Bytes :=
  match r.kind with
  | .note => bytes "note       " ++ pad8 r.word ++ [space] ++ r.path ++
      bytes " (executable/firmware — loads fine on this kernel)" ++ [nl]
  | .okKnown => bytes "ok-known   " ++ pad8 r.word ++ [space] ++ r.path ++
      bytes " (expected, harmless)" ++ [nl]
  | .misaligned => bytes "MISALIGNED " ++ pad8 r.word ++ [space] ++ r.path ++ [nl]

/-! ## The variables and the helpers -/

structure Vars where
  a : Bytes
  b : Bytes
  f : Bytes
  root : Bytes
  bad : ℕ
  checked : ℕ
  notes : ℕ
  known : ℕ
  /-- What has been printed. -/
  rows : List Row
  deriving DecidableEq

def Vars.start : Vars := ⟨[], [], [], [], 0, 0, 0, 0, []⟩

/-- `printf`, of the row for `$a` and `$f`. -/
def Vars.print (v : Vars) (k : Kind) : Vars := { v with rows := v.rows ++ [⟨k, v.a, v.f⟩] }

def allow : List Bytes := ["libudev.so.1", "libudev.so.1.6.5", "libsystemd.so.0.17.0"].map bytes

/-- `case "$1" in *.so|*.so.*)`. -/
def is_so (p : Bytes) : Bool := bytes ".so" <:+ p ∨ bytes ".so." <:+: p

/-- `for a in $allow; do [ "$b" = "$a" ] && return 0; done; return 1`. -/
def allowedFrom : List Bytes → Vars → Bool × Vars
  | [], v => (false, v)
  | w :: ws, v =>
    let v := { v with a := w }
    if v.b = v.a then (true, v) else allowedFrom ws v

/-- The `b` and the `a` it sets are those of the caller. -/
def allowed (p : Bytes) (v : Vars) : Bool × Vars :=
  allowedFrom allow { v with b := subst (basename p ++ [nl]) }

/-! ## The loops -/

/-- `for a in $(readelf ...)`. -/
def segments : List Bytes → Vars → Vars
  | [], v => v
  | w :: ws, v =>
    let v := { v with a := w }
    if below v.a = false then segments ws v
    else if is_so v.f = false then { v.print .note with notes := v.notes + 1 }
    else
      match allowed v.f v with
      | (true, v) => { v.print .okKnown with known := v.known + 1 }
      | (false, v) => { v.print .misaligned with bad := v.bad + 1 }

section
variable (readelf : File → Bytes) (tree : Bytes → List File)

/-- `while IFS= read -r -d '' f`. The last `read` leaves `f` empty. -/
def scanFiles : List File → Vars → Vars
  | [], v => { v with f := [] }
  | x :: xs, v =>
    let v := { v with f := x.path }
    if isElf x = false then scanFiles xs v
    else scanFiles xs (segments (loadWords (readelf x)) { v with checked := v.checked + 1 })

/-- `for root in "$@"`. -/
def scanRoots : List Bytes → Vars → Vars
  | [], v => v
  | r :: rs, v => scanRoots rs (scanFiles readelf (find tree r) { v with root := r })

def alignment_scan (roots : List Bytes) : Vars := scanRoots readelf tree roots .start

end

/-- `[ "$bad" -eq 0 ]`, the status of the script. -/
def Vars.exitsZero (v : Vars) : Bool := v.bad = 0

def decimal (n : ℕ) : Bytes := bytes (toString n)

/-- What the script prints. -/
def Vars.output (v : Vars) : Bytes :=
  v.rows.flatMap Row.text ++ bytes "checked=" ++ decimal v.checked ++ bytes " misaligned_libs=" ++
    decimal v.bad ++ bytes " (known-harmless=" ++ decimal v.known ++ bytes ", exec/other notes=" ++
    decimal v.notes ++ bytes ")" ++ [nl]

end Tools
