import MyCloud.Panel.Shares

/-!
# `panel-op`: the device verbs

`status`, `smart-full`, `smart-test`, `led`, `dlna-*`, `usb-*`, `poweroff`, `reboot`. None of them
runs a command that writes smb.conf, an account, a group, an SMB password or (`usb-mount` apart)
a directory.
-/

set_option autoImplicit false

namespace Panel

open Shell

/-! ## LED -/

def ledColors : List Bytes := ["blue", "red", "green", "yellow", "white"].map bytes

/-- Color-only policy: `color` on change, `brightness` only if it is not 255 yet. -/
def led_set (color : Bytes) : Op Unit := do
  unless color ∈ ledColors do .exit (bytes "bad color '" ++ color ++ bytes "'")
  if (← run .ledCacheGet) = color then return
  unless ← run (.ledColor color) do
    .exit (bytes "LED driver rejected color " ++ color)
  if (← run .ledGetBrightness) ≠ bytes "255" then
    run .sleep
    run .ledBrightness
  run (.ledCache color)

def led (args : List Bytes) : Op Bytes := do
  led_set (arg args 0)
  return bytes "OK"

/-- `led_set yellow 2>/dev/null || true`, then the shutdown in the background. -/
def poweroff : Op Bytes := do
  led_set (bytes "yellow")
  run (.shutdown (bytes "-h"))
  return bytes "OK: halting"

def reboot : Op Bytes := do
  led_set (bytes "yellow")
  run (.shutdown (bytes "-r"))
  return bytes "OK: rebooting"

/-! ## Dashboard -/

/-- `grep -A1 '^md' /proc/mdstat | head -2`. -/
def mdLines (mdstat : Bytes) : List Line :=
  ((lines mdstat).dropWhile fun l => ¬ bytes "md" <+: l).take 2

def toUpper (c : UInt8) : UInt8 := if isLower c then c - 32 else c

/-- The SMART verdict of `status`: `grep -q STANDBY`, `grep -qi PASSED`, `grep -qi FAILED`. -/
def smartWord (out : Bytes) : Bytes :=
  if bytes "STANDBY" <:+: out then bytes "standby"
  else if bytes "PASSED" <:+: out.map toUpper then bytes "PASSED"
  else if bytes "FAILED" <:+: out.map toUpper then bytes "FAILED"
  else bytes "unknown"

def services : List Bytes :=
  ["smbd", "nmbd", "wsdd2", "sshd", "chronyd", "cron", "rsyslogd", "lighttpd"].map bytes

def serviceLines : List Bytes → Op (List Line)
  | [] => return []
  | s :: ss => do
    let up ← run (.probe (.pidof s))
    let rest ← serviceLines ss
    return (s ++ if up.isSome then bytes " up" else bytes " DOWN") :: rest

def status : Op Bytes := do
  let uptime ← run (.probe .uptime)
  let mem ← run (.probe .free)
  let df ← run (.probe .df)
  let md ← run (.probe .mdstat)
  let svc ← serviceLines services
  let smart ← run (.probe .smartHealth)
  let color ← run .ledGet
  let blink ← run (.probe .ledBlink)
  let brightness ← run .ledGetBrightness
  return unlines <|
    [bytes "## uptime"] ++ lines (uptime.getD []) ++
    [bytes "## mem"] ++ ((lines (mem.getD [])).drop 1).take 1 ++
    [bytes "## df"] ++ (lines (df.getD [])).drop 1 ++
    [bytes "## md"] ++ mdLines (md.getD []) ++
    [bytes "## services"] ++ svc ++
    [bytes "## smart", smartWord (smart.getD []), bytes "## led",
      bytes "color=" ++ color ++ bytes " blink=" ++ blink.getD [] ++
        bytes " brightness=" ++ brightness]

/-- `exec smartctl -a`: the output of `smartctl` is the reply. -/
def smart_full : Op Bytes := do
  return (← run (.probe .smartAll)).getD []

def smart_test (args : List Bytes) : Op Bytes := do
  let t := argOr args 0 (bytes "short")
  unless t = bytes "short" ∨ t = bytes "long" do die "bad test type"
  let _ ← run (.smartTest t)
  return []

/-! ## DLNA -/

def minidlna : Bytes := bytes "minidlna"

def dlna_status : Op Bytes := do
  return if ← run .dlnaPid then bytes "running" else bytes "stopped"

def dlna_start : Op Bytes := do
  unless ← run .dlnaStart do die "minidlna failed to start"
  run (.updateRc minidlna (bytes "enable"))
  return bytes "OK: DLNA running (will also start at boot)"

def dlna_stop : Op Bytes := do
  run .dlnaStop
  if ← run .dlnaPid then
    run .sleep
    run .dlnaKill
  run (.updateRc minidlna (bytes "disable"))
  return bytes "OK: DLNA stopped (stays off after reboot)"

/-! ## USB -/

/-- The fields of a line: the pieces between blanks. -/
def fieldsOf (l : Line) : List Bytes :=
  (records space (l.map fun c => if c = tab then space else c)).filter (· ≠ [])

def isWord (c : UInt8) : Bool :=
  isLower c || isDigit c || isLower (c + 32) || c = '_'.toUInt8

/-- `grep -qw w`: an occurrence of `w` with no word character beside it. -/
def grepWord (w : Bytes) (t : Bytes) : Bool :=
  (lines t).any fun l => (List.range (l.length + 1)).any fun i =>
    w <+: l.drop i && ((l.take i).getLast?.all fun c => !isWord c) &&
      ((l.drop (i + w.length)).head?.all fun c => !isWord c)

/-- `awk -v d=p '$4==d{print $3}' /proc/partitions`. -/
def partSize (p : Bytes) (partitions : Bytes) : Bytes :=
  (((lines partitions).filter fun l => (fieldsOf l).getD 3 [] = p).map
    fun l => (fieldsOf l).getD 2 []).headD []

def toNat (s : Bytes) : ℕ := s.foldl (fun a c => 10 * a + (c.toNat - 48)) 0

def usbParts : List Bytes :=
  ["sdb1", "sdb2", "sdb3", "sdb4", "sdb5", "sdb6", "sdb7", "sdb8", "sdb"].map bytes

def usbTypes : List Bytes := ["vfat", "ext2", "ext3", "ext4"].map bytes

/-- The loop of `usb-mount`: the largest partition with a mountable type, and that type. -/
def bestPart (partitions : Bytes) :
    List Bytes → Option (Bytes × ℕ × Bytes) → Op (Option (Bytes × ℕ × Bytes))
  | [], best => return best
  | p :: ps, best => do
    if (← run (.probe (.isBlock p))).isNone then bestPart partitions ps best
    else if ¬ grepWord p partitions then bestPart partitions ps best
    else
      match ← run (.probe (.blkid p)) with
      | none => bestPart partitions ps best
      | some t =>
        if t ∉ usbTypes then bestPart partitions ps best
        else
          let sz := toNat (partSize p partitions)
          bestPart partitions ps
            (if (best.map (·.2.1)).getD 0 < sz then some (p, sz, t) else best)

/-- What `usb-status` prints of the `df` line of the mount: `$2" ("$5" used)"`. -/
def dfUsage (df : Bytes) : Bytes :=
  let f := fieldsOf ((lines df).getD 1 [])
  f.getD 1 [] ++ bytes " (" ++ f.getD 4 [] ++ bytes " used)"

def usb_status : Op Bytes := do
  if ¬ grepWord (bytes "sdb") ((← run (.probe .partitions)).getD []) then return bytes "absent"
  if ← run .usbMounted then
    return bytes "mounted " ++ dfUsage ((← run (.probe .dfUsb)).getD [])
  return bytes "present (not mounted)"

def usb_mount : Op Bytes := do
  let partitions := (← run (.probe .partitions)).getD []
  unless grepWord (bytes "sdb") partitions do die "no USB drive detected"
  if ← run .usbMounted then return bytes "OK: already mounted"
  run (.mkdir (bytes "usb"))
  match ← bestPart partitions usbParts none with
  | none => die "no mountable partition found (vfat/ext only; NTFS/exFAT need extra packages)"
  | some (best, _, besttype) =>
    run .modprobe
    unless ← run (.mount besttype best) do die "mount failed"
    return bytes "OK: mounted /dev/" ++ best ++ bytes " (" ++ besttype ++
      bytes ") — visible as \\\\CLIO\\usb"

def usb_eject : Op Bytes := do
  unless ← run .usbMounted do return bytes "OK: nothing mounted"
  run .sync
  unless ← run .umount do
    die "drive is busy — close any open files/Explorer windows on \\\\CLIO\\usb, then retry"
  return bytes "OK: ejected — safe to unplug"

end Panel
