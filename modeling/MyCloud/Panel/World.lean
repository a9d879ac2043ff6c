import Mathlib.Data.List.AList
import MyCloud.Shell.Script
import MyCloud.Shell.Segments
import MyCloud.Shell.Text

/-!
# The box as `panel-op` sees it

`World`: the stores the script's commands read and write. `Cmd`: the commands, with the arguments
the script passes. `exec e c w`: what command `c` does in `w` and answers. The environment `e`
says which commands fail, how much a failing command still writes, and what the read-only probes
(`/proc`, `smartctl`, `df`, ...) show; `Succeeds e` is the case of no failure.

The temporary file of `share_add_block` and `share_del_block` comes from `mktemp`, so no other
process has it: its text is passed from command to command as a value.
-/

set_option autoImplicit false

namespace Panel

open Shell

/-! ## Stores -/

/-- A directory under `/srv/nas`. -/
structure Dir where
  owner : Bytes
  group : Bytes
  mode : Bytes
  deriving DecidableEq

/-- `/sys/class/leds/system_led` and `/var/run/nas-led.state`. -/
structure Led where
  color : Bytes
  brightness : Bytes
  cache : Option Bytes
  deriving DecidableEq

structure World where
  /-- The text of `/etc/samba/smb.conf`. -/
  smb : Bytes
  /-- Unix accounts: name and uid. -/
  accounts : AList fun _ : Bytes => ℕ
  /-- Supplementary memberships: group and member, in the order of `/etc/group`. -/
  groups : List (Bytes × Bytes)
  /-- SMB accounts: name and password, `none` for no password. -/
  passdb : AList fun _ : Bytes => Option Bytes
  dirs : AList fun _ : Bytes => Dir
  led : Led
  dlna : Bool
  /-- The device mounted on `/srv/nas/usb`. -/
  usb : Option Bytes
  /-- The flag of a scheduled `shutdown`. -/
  shutdown : Option Bytes
  /-- The uid that the box's `adduser` takes, over the accounts there are. -/
  newUid : (AList fun _ : Bytes => ℕ) → ℕ

def World.members (w : World) (g : Bytes) : List Bytes :=
  (w.groups.filter (·.1 = g)).map (·.2)

/-! ## Lines of smb.conf -/

abbrev Line := Bytes

def lines (t : Bytes) : List Line := records nl t

def unlines (ls : List Line) : Bytes := terminate nl ls

/-- `[n]`. -/
def header (n : Bytes) : Line := bytes "[" ++ n ++ bytes "]"

/-- `/^\[/`. -/
def isHeader (l : Line) : Bool := l.head? = some '['.toUInt8

/-- `grep -q "^\[$n\]" "$SMB"`, for an `n` without regex characters. -/
def hasHeader (n : Bytes) (t : Bytes) : Bool := (lines t).any fun l => header n <+: l

/-- `awk -v tgt="[$n]" 'BEGIN{skip=0} /^\[/{skip=($0==tgt)} !skip' "$SMB"`. -/
def awkDel (n : Bytes) (t : Bytes) : Bytes :=
  unlines (skipFrom isHeader (header n) false (lines t))

/-! ## Commands -/

/-- What the script only reads, outside the stores. -/
inductive Probe
  | uptime | free | df | mdstat | partitions | smartHealth | smartAll | ledBlink
  | pidof (s : Bytes) | isBlock (p : Bytes) | blkid (p : Bytes) | dfUsb
  deriving DecidableEq

/-- Which of its two calls runs the `grep` for a header: the verb or `share_del_block`. -/
inductive Caller
  | verb | delBlock
  deriving DecidableEq

inductive Cmd
  | id (u : Bytes)
  | adduser (u : Bytes)
  | usermod (u g : Bytes)
  | gpasswd (u g : Bytes)
  | deluser (u : Bytes)
  /-- `smbpasswd -a -s u`, `smbpasswd -s u`, `-n u`, `-x u`. -/
  | smbpasswdAdd (u stdin : Bytes)
  | smbpasswdSet (u stdin : Bytes)
  | smbpasswdNull (u : Bytes)
  | smbpasswdDel (u : Bytes)
  | pdbedit
  | getent (g : Bytes)
  | mkdir (n : Bytes)
  /-- `chown o:users /srv/nas/n`. -/
  | chown (o n : Bytes)
  | chmod (mode n : Bytes)
  | grepHeader (by_ : Caller) (n : Bytes)
  | readConf
  | mktemp
  /-- `cat "$SMB" > "$tmp"`, `{ ... } >> "$tmp"`, `awk ... "$SMB" > "$tmp"`: the text of `$tmp`. -/
  | catConf
  | append (tmp text : Bytes)
  | awkDel (n : Bytes)
  | testparm (tmp : Bytes)
  /-- `cat "$tmp" > "$SMB"`. -/
  | writeConf (tmp : Bytes)
  | rm
  | reload
  | probe (p : Probe)
  | ledGet
  | ledGetBrightness
  | ledCacheGet
  | ledColor (c : Bytes)
  | ledBrightness
  | ledCache (c : Bytes)
  | sleep
  | dlnaStart
  | dlnaStop
  | dlnaKill
  | dlnaPid
  | updateRc (s act : Bytes)
  | usbMounted
  | modprobe
  | mount (fs p : Bytes)
  | umount
  | sync
  | shutdown (flag : Bytes)
  | smartTest (t : Bytes)
  deriving DecidableEq

/-- What a command answers: its exit status, the text it wrote or the list it printed. -/
abbrev Cmd.Out : Cmd → Type
  | .pdbedit | .getent _ => List Bytes
  | .readConf | .catConf | .append _ _ | .awkDel _ => Bytes
  | .ledGet | .ledGetBrightness | .ledCacheGet => Bytes
  | .probe _ => Option Bytes
  | .usermod _ _ | .gpasswd _ _ | .deluser _ | .chown _ _ | .chmod _ _ | .mkdir _ => Unit
  | .writeConf _ | .rm | .reload | .ledBrightness | .ledCache _ | .sleep => Unit
  | .dlnaStop | .dlnaKill | .updateRc _ _ | .modprobe | .sync | .shutdown _ => Unit
  | .smbpasswdDel _ => Unit
  | .id _ | .adduser _ | .smbpasswdAdd _ _ | .smbpasswdSet _ _ | .smbpasswdNull _ => Bool
  | .grepHeader _ _ | .mktemp | .testparm _ | .ledColor _ | .dlnaStart | .dlnaPid => Bool
  | .usbMounted | .mount _ _ | .umount | .smartTest _ => Bool

/-- How a command ends. A failing command that writes a text still writes its first bytes; one whose
redirection cannot open its file does not run at all. -/
inductive Outcome
  | ok
  | fail (written : ℕ)
  | unopened
  deriving DecidableEq

structure Env where
  outcome : Cmd → Outcome
  probe : Probe → Option Bytes

def Env.ok (e : Env) (c : Cmd) : Bool := e.outcome c = .ok

/-- Every external command succeeds, and `testparm` accepts. -/
def Succeeds (e : Env) : Prop := ∀ c, e.outcome c = .ok

/-- What reaches a file of the text `t` that command `c` writes to it. -/
def Env.written (e : Env) (c : Cmd) (t : Bytes) : Bytes :=
  match e.outcome c with
  | .ok => t
  | .fail k => t.take k
  | .unopened => []

/-- The file is opened for command `c`, and `>` has emptied it. -/
def Env.opens (e : Env) (c : Cmd) : Bool := e.outcome c ≠ .unopened

/-- smb.conf after `cat "$tmp" > "$SMB"`. -/
def Env.copiedBack (e : Env) (tmp smb : Bytes) : Bytes :=
  if e.opens (.writeConf tmp) then e.written (.writeConf tmp) tmp else smb

theorem Env.copiedBack_opens {e : Env} {tmp : Bytes} (h : e.opens (.writeConf tmp) = true)
    (smb : Bytes) : e.copiedBack tmp smb = e.written (.writeConf tmp) tmp := if_pos h

theorem Env.copiedBack_unopened {e : Env} {tmp : Bytes} (h : ¬ e.opens (.writeConf tmp) = true)
    (smb : Bytes) : e.copiedBack tmp smb = smb := if_neg h

/-! ## Effects -/

/-- `smbpasswd -s` reads the new password and its confirmation as two lines. -/
def newPassword (stdin : Bytes) : Option Bytes :=
  match lines stdin with
  | p :: q :: _ => if p = q then some p else none
  | _ => none

def World.setPassword (w : World) (u : Bytes) (p : Option Bytes) : World :=
  { w with passdb := w.passdb.insert u p }

/-- `usermod -aG g u`. -/
def World.join (w : World) (u g : Bytes) : World :=
  if (g, u) ∈ w.groups then w else { w with groups := w.groups ++ [(g, u)] }

/-- `gpasswd -d u g`. -/
def World.leave (w : World) (u g : Bytes) : World :=
  { w with groups := w.groups.filter (· ≠ (g, u)) }

/-- `deluser u`: the account and its membership of every supplementary group. -/
def World.removeUser (w : World) (u : Bytes) : World :=
  { w with accounts := w.accounts.erase u, groups := w.groups.filter (·.2 ≠ u) }

def World.setDir (w : World) (n : Bytes) (f : Dir → Dir) : World :=
  match w.dirs.lookup n with
  | some d => { w with dirs := w.dirs.insert n (f d) }
  | none => w

/-- `mkdir -p /srv/nas/n`. -/
def World.makeDir (w : World) (n : Bytes) : World :=
  if n ∈ w.dirs then w
  else { w with dirs := w.dirs.insert n ⟨bytes "root", bytes "root", bytes "755"⟩ }

def exec (e : Env) : (c : Cmd) → World → c.Out × World
  | .id u, w => (e.ok (.id u) && decide (u ∈ w.accounts), w)
  | .adduser u, w =>
    if e.ok (.adduser u) ∧ u ∉ w.accounts then
      (true, { w with accounts := w.accounts.insert u (w.newUid w.accounts) })
    else (false, w)
  | .usermod u g, w => ((), if e.ok (.usermod u g) ∧ u ∈ w.accounts then w.join u g else w)
  | .gpasswd u g, w => ((), if e.ok (.gpasswd u g) then w.leave u g else w)
  | .deluser u, w => ((), if e.ok (.deluser u) ∧ u ∈ w.accounts then w.removeUser u else w)
  | .smbpasswdAdd u stdin, w =>
    match newPassword stdin with
    | some p => if e.ok (.smbpasswdAdd u stdin) then (true, w.setPassword u (some p)) else (false, w)
    | none => (false, w)
  | .smbpasswdSet u stdin, w =>
    match newPassword stdin with
    | some p =>
      if e.ok (.smbpasswdSet u stdin) ∧ u ∈ w.passdb then (true, w.setPassword u (some p))
      else (false, w)
    | none => (false, w)
  | .smbpasswdNull u, w =>
    if e.ok (.smbpasswdNull u) ∧ u ∈ w.passdb then (true, w.setPassword u none) else (false, w)
  | .smbpasswdDel u, w =>
    ((), if e.ok (.smbpasswdDel u) then { w with passdb := w.passdb.erase u } else w)
  | .pdbedit, w => (if e.ok .pdbedit then w.passdb.keys else [], w)
  | .getent g, w => (if e.ok (.getent g) then w.members g else [], w)
  | .mkdir n, w => ((), if e.ok (.mkdir n) then w.makeDir n else w)
  | .chown o n, w =>
    ((), if e.ok (.chown o n) ∧ o ∈ w.accounts then
      w.setDir n fun d => { d with owner := o, group := bytes "users" } else w)
  | .chmod mode n, w =>
    ((), if e.ok (.chmod mode n) then w.setDir n fun d => { d with mode := mode } else w)
  | .grepHeader by_ n, w => (e.ok (.grepHeader by_ n) && hasHeader n w.smb, w)
  | .readConf, w => (e.written .readConf w.smb, w)
  | .mktemp, w => (e.ok .mktemp, w)
  | .catConf, w => (e.written .catConf w.smb, w)
  | .append tmp text, w => (tmp ++ e.written (.append tmp text) text, w)
  | .awkDel n, w => (e.written (.awkDel n) (awkDel n w.smb), w)
  | .testparm tmp, w => (e.ok (.testparm tmp), w)
  | .writeConf tmp, w => ((), { w with smb := e.copiedBack tmp w.smb })
  | .rm, w => ((), w)
  | .reload, w => ((), w)
  | .probe p, w => (e.probe p, w)
  | .ledGet, w => (if e.ok .ledGet then w.led.color else [], w)
  | .ledGetBrightness, w => (if e.ok .ledGetBrightness then w.led.brightness else [], w)
  | .ledCacheGet, w => (if e.ok .ledCacheGet then w.led.cache.getD [] else [], w)
  | .ledColor c, w =>
    if e.ok (.ledColor c) then (true, { w with led := { w.led with color := c } }) else (false, w)
  | .ledBrightness, w =>
    ((), if e.ok .ledBrightness then { w with led := { w.led with brightness := bytes "255" } } else w)
  | .ledCache c, w =>
    ((), if e.ok (.ledCache c) then { w with led := { w.led with cache := some c } } else w)
  | .sleep, w => ((), w)
  | .dlnaStart, w => if e.ok .dlnaStart then (true, { w with dlna := true }) else (false, w)
  | .dlnaStop, w => ((), if e.ok .dlnaStop then { w with dlna := false } else w)
  | .dlnaKill, w => ((), if e.ok .dlnaKill then { w with dlna := false } else w)
  | .dlnaPid, w => (e.ok .dlnaPid && w.dlna, w)
  | .updateRc _ _, w => ((), w)
  | .usbMounted, w => (e.ok .usbMounted && w.usb.isSome, w)
  | .modprobe, w => ((), w)
  | .mount fs p, w =>
    if e.ok (.mount fs p) then (true, { w with usb := some p }) else (false, w)
  | .umount, w => if e.ok .umount then (true, { w with usb := none }) else (false, w)
  | .sync, w => ((), w)
  | .shutdown flag, w =>
    ((), if e.ok (.shutdown flag) then { w with shutdown := some flag } else w)
  | .smartTest t, w => (e.ok (.smartTest t), w)

/-! ## One equation for each command -/

section
variable (e : Env) (w : World)

@[simp] theorem exec_id (u : Bytes) :
    exec e (.id u) w = (e.ok (.id u) && decide (u ∈ w.accounts), w) := (rfl)

@[simp] theorem exec_adduser (u : Bytes) :
    exec e (.adduser u) w = if e.ok (.adduser u) ∧ u ∉ w.accounts then
      (true, { w with accounts := w.accounts.insert u (w.newUid w.accounts) })
    else (false, w) := (rfl)

@[simp] theorem exec_usermod (u g : Bytes) :
    exec e (.usermod u g) w =
      ((), if e.ok (.usermod u g) ∧ u ∈ w.accounts then w.join u g else w) := (rfl)

@[simp] theorem exec_gpasswd (u g : Bytes) :
    exec e (.gpasswd u g) w = ((), if e.ok (.gpasswd u g) then w.leave u g else w) := (rfl)

@[simp] theorem exec_deluser (u : Bytes) :
    exec e (.deluser u) w =
      ((), if e.ok (.deluser u) ∧ u ∈ w.accounts then w.removeUser u else w) := (rfl)

@[simp] theorem exec_smbpasswdNull (u : Bytes) :
    exec e (.smbpasswdNull u) w =
      if e.ok (.smbpasswdNull u) ∧ u ∈ w.passdb then (true, w.setPassword u none)
      else (false, w) := (rfl)

theorem exec_smbpasswdAdd {u stdin p : Bytes} (h : newPassword stdin = some p) :
    exec e (.smbpasswdAdd u stdin) w =
      if e.ok (.smbpasswdAdd u stdin) then (true, w.setPassword u (some p)) else (false, w) := by
  simp only [exec, h]

theorem exec_smbpasswdSet {u stdin p : Bytes} (h : newPassword stdin = some p) :
    exec e (.smbpasswdSet u stdin) w =
      if e.ok (.smbpasswdSet u stdin) ∧ u ∈ w.passdb then (true, w.setPassword u (some p))
      else (false, w) := by
  simp only [exec, h]

@[simp] theorem exec_smbpasswdDel (u : Bytes) :
    exec e (.smbpasswdDel u) w =
      ((), if e.ok (.smbpasswdDel u) then { w with passdb := w.passdb.erase u } else w) := (rfl)

@[simp] theorem exec_pdbedit :
    exec e .pdbedit w = (if e.ok .pdbedit then w.passdb.keys else [], w) := (rfl)

@[simp] theorem exec_getent (g : Bytes) :
    exec e (.getent g) w = (if e.ok (.getent g) then w.members g else [], w) := (rfl)

@[simp] theorem exec_grepHeader (by_ : Caller) (n : Bytes) :
    exec e (.grepHeader by_ n) w = (e.ok (.grepHeader by_ n) && hasHeader n w.smb, w) := (rfl)

@[simp] theorem exec_readConf : exec e .readConf w = (e.written .readConf w.smb, w) := (rfl)

@[simp] theorem exec_mktemp : exec e .mktemp w = (e.ok .mktemp, w) := (rfl)

@[simp] theorem exec_catConf : exec e .catConf w = (e.written .catConf w.smb, w) := (rfl)

@[simp] theorem exec_append (tmp text : Bytes) :
    exec e (.append tmp text) w = (tmp ++ e.written (.append tmp text) text, w) := (rfl)

@[simp] theorem exec_awkDel (n : Bytes) :
    exec e (.awkDel n) w = (e.written (.awkDel n) (awkDel n w.smb), w) := (rfl)

@[simp] theorem exec_testparm (tmp : Bytes) :
    exec e (.testparm tmp) w = (e.ok (.testparm tmp), w) := (rfl)

@[simp] theorem exec_writeConf (tmp : Bytes) :
    exec e (.writeConf tmp) w = ((), { w with smb := e.copiedBack tmp w.smb }) := (rfl)

@[simp] theorem exec_rm : exec e .rm w = ((), w) := (rfl)

@[simp] theorem exec_reload : exec e .reload w = ((), w) := (rfl)

end

end Panel
