import Mathlib.Data.List.DropRight
import MyCloud.Panel.Shares

/-!
# smb.conf as Samba reads it

`sections t`: the sections of the text `t`, each with its header line and its lines; the blank
lines that `share_add_block` writes between sections belong to none. `admits w u s`: the share `s`
is open to everyone, or names `u` or a group of `u` among its valid users.

`sambaSections t` are the sections of a text that was edited by hand: there a header may be
indented, and what follows its name is ignored.
-/

set_option autoImplicit false

namespace Panel

open Shell

/-- The lines up to the last one that is not blank. -/
def trim (ls : List Line) : List Line := ls.rdropWhile (· = [])

def sections (t : Bytes) : List (Line × List Line) :=
  (segments isHeader (lines t)).2.map fun s => (s.1, trim s.2)

/-- The value of a parameter of a section; its last line counts. -/
def param (key : Bytes) (ls : List Line) : Option Bytes := (ls.filterMap (stripKey key)).getLast?

/-- The words of a list of names: it is cut at blanks and commas. -/
def words (v : Bytes) : List Bytes :=
  (records space (v.map fun c => if c = tab ∨ c = ','.toUInt8 then space else c)).filter (· ≠ [])

def guestOk (ls : List Line) : Bool := param (bytes "guest ok") ls = some (bytes "yes")

def validUsers (ls : List Line) : List Bytes := ((param (bytes "valid users") ls).map words).getD []

/-- The word `v` of a list of names is `u`, or `@g` for a group `g` of `u`. -/
def named (w : World) (u v : Bytes) : Bool :=
  v = u || (v.head? = some '@'.toUInt8 && (v.tail, u) ∈ w.groups)

/-- Is the section open to `u`? -/
def admitted (w : World) (u : Bytes) (ls : List Line) : Bool :=
  guestOk ls || (validUsers ls).any (named w u)

def admits (w : World) (u s : Bytes) : Bool :=
  (sections w.smb).any fun sec => sec.1 = header s && admitted w u sec.2

/-! ## Headers as in a file edited by hand -/

/-- A header line: its first character that is not blank is `[`. -/
def opensSection (l : Line) : Bool := isHeader (l.dropWhile isBlank)

/-- The name in a header line runs to the next `]`; the rest of the line is ignored. -/
def sectionName (l : Line) : Option Bytes :=
  let r := (l.dropWhile isBlank).tail
  if ']'.toUInt8 ∈ r then some (r.takeWhile (· ≠ ']'.toUInt8)) else none

/-- The sections, each with its header line and all its lines. -/
def sambaSections (t : Bytes) : List (Line × List Line) := (segments opensSection (lines t)).2

end Panel
