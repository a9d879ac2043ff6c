import Mathlib.Data.List.AList
import MyCloud.Shell.Script
import MyCloud.Shell.Text

/-!
# `02-flash-rootfs.sh`

The script that writes the root file system, and the build host as it sees it: the md arrays that
run, the preferred minor in the 0.90 superblock of each partition, the nodes `/dev/md*`, the mounts.

The environment `e` says which commands fail, what the checks of the new tree find, and what `mdadm`
makes of the host when it stops or assembles arrays: any arrays may run after it, under any number,
whether or not it reports success. Of an array that runs as `/dev/mdK` a write to it stamps `K` into the
0.90 superblocks of its members.
-/

set_option autoImplicit false

namespace Flash

open Shell

/-- What `/dev/md*` names: an md array by its minor number, or something else. -/
inductive Node
  | md (k : ℕ)
  | other (name : Bytes)
  deriving DecidableEq

structure Host where
  /-- The arrays that run: minor number and members. -/
  arrays : AList fun _ : ℕ => List Bytes
  /-- The preferred minor in the 0.90 superblock of a partition. -/
  preferred : Bytes → Option ℕ
  /-- What `ls /dev/md*` prints. -/
  nodes : List Node
  mounts : List (Bytes × Node)

/-- The array that holds a partition. -/
def Host.holder (h : Host) (d : Bytes) : Option ℕ :=
  (h.arrays.entries.find? fun a => d ∈ a.2).map (·.1)

/-- A write to an array that runs as `/dev/mdK`. -/
def Host.stamp (h : Host) : Node → Host
  | .md k =>
    match h.arrays.lookup k with
    | some ms =>
      { h with preferred := fun d =>
        if d ∈ ms then (h.preferred d).map fun _ => k else h.preferred d }
    | none => h
  | .other _ => h

/-- Does the array run? -/
def Host.runs (h : Host) : Node → Bool
  | .md k => k ∈ h.arrays
  | .other _ => true

def Host.stopped (h : Host) : Node → Host
  | .md k => { h with arrays := h.arrays.erase k }
  | .other _ => h

/-! ## Commands -/

/-- The checks of the new tree. -/
inductive Check
  | pfeKo | firmware | initmarker | devfs | udevDisabled | devNodes | fwHelper | pfeIfup | pfeModules
  deriving DecidableEq

inductive Cmd
  | tarball
  /-- `mdadm --stop --scan`. -/
  | stopScan
  /-- `mdadm --assemble --run --update=super-minor /dev/md1 d1 d2`. -/
  | assembleUpdate (d1 d2 : Bytes)
  | assemble (d1 d2 : Bytes)
  /-- `mdadm --assemble --run --scan`. -/
  | assembleScan
  /-- `lsblk -nro NAME d`: its second line names the array that holds `d`. -/
  | lsblk (d : Bytes)
  /-- `ls /dev/md* | head -1`. -/
  | lsMd
  /-- `mdadm --examine d | grep -i 'Preferred Minor'`, before and after the writes. -/
  | examine (after : Bool) (d : Bytes)
  | detail (md : Node)
  | read
  | mkfs (md : Node)
  | mktemp
  | mount (md : Node) (mnt : Bytes)
  | tar (mnt : Bytes)
  | sync
  | check (c : Check) (mnt : Bytes)
  /-- `readelf -lW libsystemd.so.0 | awk '/LOAD/{print $NF; exit}'`. -/
  | readelf (mnt : Bytes)
  | umount (mnt : Bytes)
  | rmdir (mnt : Bytes)
  | tune2fs (md : Node)
  | tune2fsList (md : Node)
  | stop (md : Node)
  deriving DecidableEq

/-- What a command answers: its exit status, or what it printed (`none`: it failed). -/
abbrev Cmd.Out : Cmd → Type
  | .stopScan | .stop _ => Unit
  | .lsblk _ => Option (Option ℕ)
  | .lsMd => Option (Option Node)
  | .read => Bytes
  | .mktemp | .readelf _ => Option Bytes
  | _ => Bool

structure Env where
  ok : Cmd → Bool
  /-- The host after `mdadm` has stopped or assembled arrays. -/
  mdadm : Cmd → Host → Host
  answer : Bytes
  mnt : Bytes
  finds : Check → Bool
  libsystemdAlign : Bytes

def exec (e : Env) : (c : Cmd) → Host → c.Out × Host
  | .tarball, h => (e.ok .tarball, h)
  | .stopScan, h => ((), e.mdadm .stopScan h)
  | .assembleUpdate d1 d2, h => (e.ok (.assembleUpdate d1 d2), e.mdadm (.assembleUpdate d1 d2) h)
  | .assemble d1 d2, h => (e.ok (.assemble d1 d2), e.mdadm (.assemble d1 d2) h)
  | .assembleScan, h => (e.ok .assembleScan, e.mdadm .assembleScan h)
  | .lsblk d, h => (if e.ok (.lsblk d) then some (h.holder d) else none, h)
  | .lsMd, h => (if e.ok .lsMd then some h.nodes.head? else none, h)
  | .examine after d, h => (e.ok (.examine after d) && (h.preferred d).isSome, h)
  | .detail md, h => (e.ok (.detail md) && h.runs md, h)
  | .read, h => (e.answer, h)
  | .mkfs md, h => (e.ok (.mkfs md), h.stamp md)
  | .mktemp, h => (if e.ok .mktemp then some e.mnt else none, h)
  | .mount md mnt, h =>
    if e.ok (.mount md mnt) then (true, { h.stamp md with mounts := (mnt, md) :: h.mounts })
    else (false, h)
  | .tar mnt, h => (e.ok (.tar mnt), h)
  | .sync, h => (e.ok .sync, h)
  | .check c _, h => (e.finds c, h)
  | .readelf mnt, h => (if e.ok (.readelf mnt) then some e.libsystemdAlign else none, h)
  | .umount mnt, h =>
    if e.ok (.umount mnt) then (true, { h with mounts := h.mounts.filter (·.1 ≠ mnt) })
    else (false, h)
  | .rmdir mnt, h => (e.ok (.rmdir mnt), h)
  | .tune2fs md, h => (e.ok (.tune2fs md), h.stamp md)
  | .tune2fsList md, h => (e.ok (.tune2fsList md), h)
  | .stop md, h => ((), if e.ok (.stop md) then (h.stamp md).stopped md else h)

/-! ## One equation for each command -/

section
variable (e : Env) (h : Host)

@[simp] theorem exec_tarball : exec e .tarball h = (e.ok .tarball, h) := (rfl)

@[simp] theorem exec_stopScan :
    exec e .stopScan h = ((), e.mdadm .stopScan h) := (rfl)

@[simp] theorem exec_assembleUpdate (d1 d2 : Bytes) :
    exec e (.assembleUpdate d1 d2) h =
      (e.ok (.assembleUpdate d1 d2), e.mdadm (.assembleUpdate d1 d2) h) := (rfl)

@[simp] theorem exec_assemble (d1 d2 : Bytes) :
    exec e (.assemble d1 d2) h =
      (e.ok (.assemble d1 d2), e.mdadm (.assemble d1 d2) h) := (rfl)

@[simp] theorem exec_assembleScan :
    exec e .assembleScan h = (e.ok .assembleScan, e.mdadm .assembleScan h) := (rfl)

@[simp] theorem exec_lsblk (d : Bytes) :
    exec e (.lsblk d) h =
      (if e.ok (.lsblk d) then some (h.holder d) else none, h) := (rfl)

@[simp] theorem exec_lsMd :
    exec e .lsMd h = (if e.ok .lsMd then some h.nodes.head? else none, h) := (rfl)

@[simp] theorem exec_examine (after : Bool) (d : Bytes) :
    exec e (.examine after d) h =
      (e.ok (.examine after d) && (h.preferred d).isSome, h) := (rfl)

@[simp] theorem exec_detail (md : Node) :
    exec e (.detail md) h = (e.ok (.detail md) && h.runs md, h) := (rfl)

@[simp] theorem exec_read : exec e .read h = (e.answer, h) := (rfl)

@[simp] theorem exec_mkfs (md : Node) :
    exec e (.mkfs md) h = (e.ok (.mkfs md), h.stamp md) := (rfl)

@[simp] theorem exec_mktemp :
    exec e .mktemp h = (if e.ok .mktemp then some e.mnt else none, h) := (rfl)

@[simp] theorem exec_mount (md : Node) (mnt : Bytes) :
    exec e (.mount md mnt) h =
      if e.ok (.mount md mnt) then (true, { h.stamp md with mounts := (mnt, md) :: h.mounts })
      else (false, h) := (rfl)

@[simp] theorem exec_tar (mnt : Bytes) :
    exec e (.tar mnt) h = (e.ok (.tar mnt), h) := (rfl)

@[simp] theorem exec_sync : exec e .sync h = (e.ok .sync, h) := (rfl)

@[simp] theorem exec_check (c : Check) (mnt : Bytes) :
    exec e (.check c mnt) h = (e.finds c, h) := (rfl)

@[simp] theorem exec_readelf (mnt : Bytes) :
    exec e (.readelf mnt) h =
      (if e.ok (.readelf mnt) then some e.libsystemdAlign else none, h) := (rfl)

@[simp] theorem exec_umount (mnt : Bytes) :
    exec e (.umount mnt) h =
      if e.ok (.umount mnt) then (true, { h with mounts := h.mounts.filter (·.1 ≠ mnt) })
      else (false, h) := (rfl)

@[simp] theorem exec_rmdir (mnt : Bytes) :
    exec e (.rmdir mnt) h = (e.ok (.rmdir mnt), h) := (rfl)

@[simp] theorem exec_tune2fs (md : Node) :
    exec e (.tune2fs md) h = (e.ok (.tune2fs md), h.stamp md) := (rfl)

@[simp] theorem exec_tune2fsList (md : Node) :
    exec e (.tune2fsList md) h = (e.ok (.tune2fsList md), h) := (rfl)

@[simp] theorem exec_stop (md : Node) :
    exec e (.stop md) h =
      ((), if e.ok (.stop md) then (h.stamp md).stopped md else h) := (rfl)

end

/-! ## The script -/

/-- A run ends with FLASH COMPLETE, or with a status other than 0. -/
abbrev Op := Script Cmd Cmd.Out Unit

abbrev run (c : Cmd) : Op c.Out := Script.sh c

/-- `exit 1`, or the end of the script by `set -e`. -/
def exit {α : Type} : Op α := .exit ()

def must (b : Bool) : Op Unit := if b then return else exit

/-- The three attempts to assemble the array; what they report is not used. -/
def assemble (dev1 dev2 : Bytes) : Op Unit := do
  run .stopScan
  unless ← run (.assembleUpdate dev1 dev2) do
    unless ← run (.assemble dev1 dev2) do
      let _ ← run .assembleScan

/-- `MD`: the array that holds the partition, else the first `/dev/md*`; `none` for the empty name. -/
def find_md (dev1 : Bytes) : Op (Option Node) := do
  match ← run (.lsblk dev1) with
  | none => exit
  | some (some k) => return some (.md k)
  | some none =>
    match ← run .lsMd with
    | none => exit
    | some md => return md

/-- Up to the answer of the operator. -/
def choose (dev1 dev2 : Bytes) : Op Node := do
  must (← run .tarball)
  assemble dev1 dev2
  let md ← find_md dev1
  must (← run (.examine false dev1))
  match md with
  | none => exit
  | some md =>
    must (← run (.detail md))
    must ((← run .read) = bytes "YES")
    return md

/-- `mkfs.ext3`, `mount`, `tar`. -/
def fill (md : Node) : Op Bytes := do
  must (← run (.mkfs md))
  match ← run .mktemp with
  | none => exit
  | some mnt =>
    must (← run (.mount md mnt))
    must (← run (.tar mnt))
    must (← run .sync)
    return mnt

/-- "verify key bits landed". -/
def verify (mnt : Bytes) : Op Unit := do
  let _ ← run (.check .pfeKo mnt)
  let _ ← run (.check .firmware mnt)
  must (← run (.check .initmarker mnt))
  must (← run (.check .devfs mnt))
  must (← run (.check .udevDisabled mnt))
  let _ ← run (.check .devNodes mnt)
  match ← run (.readelf mnt) with
  | none => exit
  | some align =>
    must (align = bytes "0x10000")
    must (← run (.check .fwHelper mnt))
    let _ ← run (.check .pfeIfup mnt)
    must (!(← run (.check .pfeModules mnt)))

/-- From `umount` on. -/
def finish (dev1 : Bytes) (md : Node) (mnt : Bytes) : Op Unit := do
  must (← run (.umount mnt))
  must (← run (.rmdir mnt))
  must (← run (.tune2fs md))
  must (← run (.tune2fsList md))
  must (← run (.examine true dev1))
  run (.stop md)
  must (← run .sync)

/-- The partition `n` of the disk. -/
def part (dev : Bytes) (n : String) : Bytes := dev ++ bytes n

def flash_rootfs (dev : Bytes) : Op Unit := do
  let md ← choose (part dev "1") (part dev "2")
  let mnt ← fill md
  verify mnt
  finish (part dev "1") md mnt

end Flash
