import Mathlib.Logic.Function.Basic
import MyCloud.Panel.Op
import MyCloud.Panel.Samba
import MyCloud.Panel.Stage3

/-!
# The recycle bins

The files below `/srv/nas` over time: they are written, deleted through Samba, removed by hand, and
`recycle-purge` empties the recycle bins every night, while the panel changes smb.conf.

Samba's `vfs_recycle` is a parameter: where it moves a file to is `VfsRecycle.target`. The deletion is
a rename; it sets the modification time only if the share says `recycle:touch_mtime`.
-/

set_option autoImplicit false

namespace Recycle

open Shell Panel

/-- A path below `/srv/nas`: the directory of a share, directories in it, the file. -/
abbrev Path := List Bytes

structure Box where
  world : World
  /-- The modification times of the files below `/srv/nas`. -/
  files : Path → Option ℕ
  /-- The time, in seconds. -/
  now : ℕ

/-! ## The share's parameters -/

/-- A parameter that is on or off. -/
def isOn (key : String) (ls : List Line) : Bool := param (bytes key) ls = some (bytes "yes")

/-- `vfs objects = recycle`. -/
def recycles (ls : List Line) : Bool :=
  bytes "recycle" ∈ ((param (bytes "vfs objects") ls).map words).getD []

def slash : UInt8 := '/'.toUInt8

/-- The directories of `recycle:repository` for the user `u`. -/
def repository (ls : List Line) (u : Bytes) : Path :=
  (records slash ((param (bytes "recycle:repository") ls).getD (bytes ".recycle"))).map
    (replaceFirst (bytes "%U") u)

/-- The lines of the share `s`. -/
def shareSection (smb s : Bytes) : Option (List Line) :=
  if s = bytes "global" then none
  else ((sections smb).find? fun sec => sec.1 = header s).map (·.2)

/-- `vfs_recycle`: where the deletion of the file `p` of a share by `u` moves it, given the paths taken
in the share. `none`: it is not moved but removed, being excluded or in the repository already. -/
structure VfsRecycle where
  target : List Line → Bytes → Path → (Path → Bool) → Option Path
  inRepository : ∀ {ls u p taken q}, target ls u p taken = some q → repository ls u <+: q
  /-- With `recycle:versions` no file in the repository is overwritten. -/
  versions : ∀ {ls u p taken q}, isOn "recycle:versions" ls = true →
    target ls u p taken = some q → taken q = false

/-- One of the patterns of `recycle:exclude`, with a `*` or none. -/
def excludes (pat base : Bytes) : Bool :=
  let star := '*'.toUInt8
  if star ∈ pat then
    let pre := pat.takeWhile (· ≠ star)
    let post := (pat.dropWhile (· ≠ star)).tail
    pre <+: base && post <:+ base && pre.length + post.length ≤ base.length
  else base = pat

/-- The name of the `k`-th version. -/
def versionName (base : Bytes) (k : ℕ) : Bytes :=
  if k = 0 then base else bytes "Copy #" ++ bytes (toString k) ++ bytes " of " ++ base

/-- The module with `recycle:keeptree` and `recycle:versions`, for at most a hundred versions. -/
def keeptree : VfsRecycle where
  target ls u p taken :=
    let base := p.getLastD []
    let patterns := records ','.toUInt8 ((param (bytes "recycle:exclude") ls).getD [])
    if p = [] ∨ patterns.any (excludes · base) ∨ repository ls u <+: p then none
    else
      let dir := repository ls u ++ if isOn "recycle:keeptree" ls then p.dropLast else []
      if isOn "recycle:versions" ls then
        ((List.range 100).map fun k => dir ++ [versionName base k]).find? fun q => taken q = false
      else some (dir ++ [base])
  inRepository := by
    intro ls u p taken q h
    dsimp only at h
    split at h
    · cases h
    · split at h
      · obtain ⟨k, -, rfl⟩ := List.mem_map.1 (List.mem_of_find?_eq_some h)
        rw [List.append_assoc]
        exact List.prefix_append _ _
      · obtain rfl := Option.some.inj h
        rw [List.append_assoc]
        exact List.prefix_append _ _
  versions := by
    intro ls u p taken q hv h
    dsimp only at h
    split at h
    · cases h
    · simpa using List.find?_some h

/-! ## Deletion -/

/-- Where the deletion of `p` by `u` moves it. -/
def moves (v : VfsRecycle) (b : Box) (u : Bytes) : Path → Option Path
  | [] => none
  | s :: r =>
    match shareSection b.world.smb s with
    | some ls =>
      if recycles ls ∧ (b.files (s :: r)).isSome then
        (v.target ls u r fun r' => (b.files (s :: r')).isSome).map (s :: ·)
      else none
    | none => none

/-- The modification time of a file of the share after its deletion. -/
def timeAfter (b : Box) : Path → ℕ → ℕ
  | [], m => m
  | s :: _, m =>
    match shareSection b.world.smb s with
    | some ls => if isOn "recycle:touch_mtime" ls then b.now else m
    | none => m

/-- The deletion of `p` by `u` through Samba. -/
def delete (v : VfsRecycle) (u : Bytes) (p : Path) (b : Box) : Box :=
  match moves v b u p with
  | some q =>
    { b with files :=
      Function.update (Function.update b.files p none) q ((b.files p).map (timeAfter b p)) }
  | none =>
    if ((p.head?.bind (shareSection b.world.smb)).isSome) then
      { b with files := Function.update b.files p none }
    else b

/-! ## `recycle-purge` -/

def day : ℕ := 86400

/-- `-mtime +n`: more than `n` whole days ago. -/
def mtimeOver (n now m : ℕ) : Bool := n < (now - m) / day

/-- The files below `/srv/nas/*/.recycle`; the `*` matches no name that begins with a dot. -/
def inBin : Path → Bool
  | s :: r :: _ :: _ => s.head? ≠ some '.'.toUInt8 && r = bytes ".recycle"
  | _ => false

/-- `find "$r" -type f -mtime +30 -delete` for every bin. -/
def recycle_purge (b : Box) : Box :=
  { b with files := fun p =>
    if inBin p then (b.files p).filter fun m => !mtimeOver 30 b.now m else b.files p }

/-! ## Events -/

inductive Event
  | write (p : Path)
  | delete (u : Bytes) (p : Path)
  | remove (p : Path)
  | purge
  | panel (e : Env) (c : Call)

/-- An event, `d` seconds after the one before. -/
def step (v : VfsRecycle) (b : Box) (x : ℕ × Event) : Box :=
  let b := { b with now := b.now + x.1 }
  match x.2 with
  | .write p => { b with files := Function.update b.files p (some b.now) }
  | .delete u p => Recycle.delete v u p b
  | .remove p => { b with files := Function.update b.files p none }
  | .purge => recycle_purge b
  | .panel e c => { b with world := (c.exec e b.world).2 }

def run (v : VfsRecycle) (b : Box) (es : List (ℕ × Event)) : Box := es.foldl (step v) b

/-- The box as built, with some files on the disk. -/
def asBuilt (base : Base) (files : Path → Option ℕ) (now : ℕ) : Box :=
  ⟨stage3World base, files, now⟩

end Recycle
