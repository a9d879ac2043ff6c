import MyCloud.Panel.Op

/-!
# The command lines of `panel-op`

`Cmd.runs c`: the external commands that a command of the model stands for in the call `c`, each an
argument vector whose words are made of literal text of the script and of holes, the values the
script substitutes. `$tmp` is the name `mktemp` printed. `shape` is a vector with its holes marked.

`shapes` and `lineShapes` list what the script can run and what it can add to smb.conf.
-/

set_option autoImplicit false

namespace Panel

open Shell

inductive Piece
  | lit (s : String)
  | hole (v : Bytes)
  deriving DecidableEq

abbrev Word := List Piece

/-- Words of the script's text alone. -/
def lits (ss : List String) : List Word := ss.map fun s => [.lit s]

/-- One word: the text `s`, then the value `v`. -/
def opt (s : String) (v : Bytes) : Word := [.lit s, .hole v]

def Piece.mark : Piece → String
  | .lit s => s
  | .hole _ => "#"

def Piece.hole? : Piece → Option Bytes
  | .lit _ => none
  | .hole v => some v

def Word.mark (w : Word) : String := String.join (w.map Piece.mark)

/-- The bytes of a word. -/
def Word.text (w : Word) : Bytes := w.flatMap fun p =>
  match p with
  | .lit s => bytes s
  | .hole v => v

def shape (argv : List Word) : List String := argv.map Word.mark

def holes (argv : List Word) : List Bytes := argv.flatten.filterMap Piece.hole?

def SMB : String := "/etc/samba/smb.conf"

def LED : String := "/sys/class/leds/system_led"

/-- What a read-only probe runs. -/
def Probe.runs : Probe → List (List Word)
  | .uptime => [lits ["uptime"]]
  | .free => [lits ["free", "-m"], lits ["sed", "-n", "2p"]]
  | .df => [lits ["df", "-h", "/", "/srv/nas"], lits ["sed", "1d"]]
  | .mdstat => [lits ["grep", "-A1", "^md", "/proc/mdstat"], lits ["head", "-2"]]
  | .partitions => [lits ["grep", "-qw", "sdb", "/proc/partitions"]]
  | .smartHealth => [lits ["smartctl", "-H", "-n", "standby", "/dev/sda"],
      lits ["grep", "-q", "STANDBY"], lits ["grep", "-qi", "PASSED"], lits ["grep", "-qi", "FAILED"]]
  | .smartAll => [lits ["smartctl", "-a", "/dev/sda"]]
  | .ledBlink => [lits ["cat", LED ++ "/blink"]]
  | .pidof s => [lits ["pidof"] ++ [[.hole s]]]
  | .isBlock p => [lits ["grep", "-qw"] ++ [[.hole p]] ++ lits ["/proc/partitions"]]
  | .blkid p => [lits ["blkid", "-o", "value", "-s", "TYPE"] ++ [opt "/dev/" p],
      lits ["awk", "-v"] ++ [opt "d=" p] ++ lits ["(size)", "/proc/partitions"]]
  | .dfUsb => [lits ["df", "-h", "/srv/nas/usb"], lits ["awk", "(usage)"]]

/-- The names of a listing, or the test for the name of the call among them. -/
def pdbeditFilter (c : Call) : List Word :=
  if c.verb = .userList then lits ["cut", "-d:", "-f1"]
  else lits ["grep", "-q"] ++ [[.lit "^", .hole (arg c.args 0), .lit ":"]]

def Cmd.runs (c : Call) : Cmd → List (List Word)
  | .id u => [lits ["id", "-u"] ++ [[.hole u]]]
  | .adduser u =>
    [lits ["adduser", "--disabled-password", "--gecos", "", "--quiet"] ++ [[.hole u]]]
  | .usermod u g => [lits ["usermod", "-aG"] ++ [[.hole g], [.hole u]]]
  | .gpasswd u g => [lits ["gpasswd", "-d"] ++ [[.hole u], [.hole g]]]
  | .deluser u => [lits ["deluser", "--quiet"] ++ [[.hole u]]]
  | .smbpasswdAdd u _ => [lits ["smbpasswd", "-a", "-s"] ++ [[.hole u]]]
  | .smbpasswdSet u _ => [lits ["smbpasswd", "-s"] ++ [[.hole u]]]
  | .smbpasswdNull u => [lits ["smbpasswd", "-n"] ++ [[.hole u]]]
  | .smbpasswdDel u => [lits ["smbpasswd", "-x"] ++ [[.hole u]]]
  | .pdbedit => [lits ["pdbedit", "-L"], pdbeditFilter c]
  | .getent g => [lits ["getent", "group"] ++ [[.hole g]], lits ["cut", "-d:", "-f4"]]
  | .mkdir n => [lits ["mkdir", "-p"] ++ [opt "/srv/nas/" n]]
  | .chown o n => [lits ["chown"] ++ [[.hole o, .lit ":users"], opt "/srv/nas/" n]]
  | .chmod mode n => [lits ["chmod"] ++ [[.hole mode], opt "/srv/nas/" n]]
  | .grepHeader _ n => [lits ["grep", "-q"] ++ [[.lit "^\\[", .hole n, .lit "\\]"]] ++ lits [SMB]]
  | .readConf => [lits ["awk", "(share-list)", SMB], lits ["tr", " ", "\\n"],
      lits ["grep", "-v", "^@"], lits ["head", "-1"]]
  | .mktemp => [lits ["mktemp"]]
  | .catConf => [lits ["cat", SMB]]
  | .append _ _ => [lits ["cat"]]
  | .awkDel n => [lits ["awk", "-v"] ++ [[.lit "tgt=[", .hole n, .lit "]"]] ++ lits ["(skip)", SMB]]
  | .testparm _ => [lits ["testparm", "-s", "$tmp"]]
  | .writeConf _ => [lits ["cat", "$tmp"]]
  | .rm => [lits ["rm", "-f", "$tmp"]]
  | .reload => [lits ["service", "smbd", "reload"]]
  | .probe p => p.runs
  | .ledGet => [lits ["cat", LED ++ "/color"]]
  | .ledGetBrightness => [lits ["cat", LED ++ "/brightness"]]
  | .ledCacheGet => [lits ["cat", "/var/run/nas-led.state"]]
  | .ledColor color => [lits ["echo"] ++ [[.hole color]]]
  | .ledBrightness => [lits ["echo", "255"]]
  | .ledCache color => [lits ["echo"] ++ [[.hole color]]]
  | .sleep => [if c.verb = .dlnaStop then lits ["sleep", "1"] else lits ["sleep", "0.3"]]
  | .dlnaStart => [lits ["service", "minidlna", "start"]]
  | .dlnaStop => [lits ["service", "minidlna", "stop"]]
  | .dlnaKill => [lits ["pkill", "-9", "-x", "minidlnad"]]
  | .dlnaPid => [lits ["pidof", "minidlnad"]]
  | .updateRc s act => [lits ["update-rc.d"] ++ [[.hole s], [.hole act]]]
  | .usbMounted => [lits ["grep", "-q", " /srv/nas/usb ", "/proc/mounts"]]
  | .modprobe => [lits ["modprobe", "vfat"]]
  | .mount fs p =>
    if fs = bytes "vfat" then
      [lits ["mount", "-t", "vfat", "-o", "uid=root,gid=users,dmask=0002,fmask=0113"] ++
        [opt "/dev/" p] ++ lits ["/srv/nas/usb"]]
    else [lits ["mount", "-t"] ++ [[.hole fs], opt "/dev/" p] ++ lits ["/srv/nas/usb"]]
  | .umount => [lits ["umount", "/srv/nas/usb"]]
  | .sync => [lits ["sync"]]
  | .shutdown flag => [lits ["nohup", "sh", "-c"] ++
      [[.lit "sleep 2; shutdown ", .hole flag, .lit " now"]]]
  | .smartTest t => [lits ["smartctl", "-t"] ++ [[.hole t]] ++ lits ["/dev/sda"]]

/-- What the script prints into a command. -/
def Cmd.stdin? : Cmd → Option Bytes
  | .smbpasswdAdd _ stdin | .smbpasswdSet _ stdin => some stdin
  | _ => none

/-- Every command line of the script, `#` for a hole. -/
def shapes : List (List String) :=
  [["id", "-u", "#"], ["adduser", "--disabled-password", "--gecos", "", "--quiet", "#"],
   ["usermod", "-aG", "#", "#"], ["gpasswd", "-d", "#", "#"], ["deluser", "--quiet", "#"],
   ["smbpasswd", "-a", "-s", "#"], ["smbpasswd", "-s", "#"], ["smbpasswd", "-n", "#"],
   ["smbpasswd", "-x", "#"], ["pdbedit", "-L"], ["cut", "-d:", "-f1"], ["grep", "-q", "^#:"],
   ["getent", "group", "#"], ["cut", "-d:", "-f4"],
   ["mkdir", "-p", "/srv/nas/#"], ["chown", "#:users", "/srv/nas/#"], ["chmod", "#", "/srv/nas/#"],
   ["grep", "-q", "^\\[#\\]", SMB], ["awk", "(share-list)", SMB], ["tr", " ", "\\n"],
   ["grep", "-v", "^@"], ["head", "-1"], ["mktemp"], ["cat", SMB], ["cat"],
   ["awk", "-v", "tgt=[#]", "(skip)", SMB], ["testparm", "-s", "$tmp"], ["cat", "$tmp"],
   ["rm", "-f", "$tmp"], ["service", "smbd", "reload"],
   ["uptime"], ["free", "-m"], ["sed", "-n", "2p"], ["df", "-h", "/", "/srv/nas"], ["sed", "1d"],
   ["grep", "-A1", "^md", "/proc/mdstat"], ["head", "-2"],
   ["smartctl", "-H", "-n", "standby", "/dev/sda"], ["grep", "-q", "STANDBY"],
   ["grep", "-qi", "PASSED"], ["grep", "-qi", "FAILED"], ["smartctl", "-a", "/dev/sda"],
   ["smartctl", "-t", "#", "/dev/sda"], ["pidof", "#"],
   ["cat", LED ++ "/blink"], ["cat", LED ++ "/color"], ["cat", LED ++ "/brightness"],
   ["cat", "/var/run/nas-led.state"], ["echo", "#"], ["echo", "255"], ["sleep", "0.3"],
   ["sleep", "1"], ["service", "minidlna", "start"], ["service", "minidlna", "stop"],
   ["pkill", "-9", "-x", "minidlnad"], ["pidof", "minidlnad"], ["update-rc.d", "#", "#"],
   ["grep", "-qw", "sdb", "/proc/partitions"], ["grep", "-qw", "#", "/proc/partitions"],
   ["blkid", "-o", "value", "-s", "TYPE", "/dev/#"],
   ["awk", "-v", "d=#", "(size)", "/proc/partitions"], ["df", "-h", "/srv/nas/usb"],
   ["awk", "(usage)"], ["grep", "-q", " /srv/nas/usb ", "/proc/mounts"], ["modprobe", "vfat"],
   ["mount", "-t", "vfat", "-o", "uid=root,gid=users,dmask=0002,fmask=0113", "/dev/#",
     "/srv/nas/usb"],
   ["mount", "-t", "#", "/dev/#", "/srv/nas/usb"], ["umount", "/srv/nas/usb"], ["sync"],
   ["nohup", "sh", "-c", "sleep 2; shutdown # now"]]

/-- The words a verb can put into a hole beside names: none of them is an argument. -/
def Verb.words : Verb → List Bytes
  | .status => services
  | .smartTest => ["short", "long"].map bytes
  | .userList => [bytes "smbadmins"]
  | .userAdd => ["users", "2770"].map bytes
  | .userAdmin => [bytes "smbadmins"]
  | .shareAdd => ["2770", "2775"].map bytes
  | .led => ledColors
  | .dlnaStart => ["minidlna", "enable"].map bytes
  | .dlnaStop => ["minidlna", "disable"].map bytes
  | .usbMount => usbParts ++ usbTypes
  | .poweroff => ["yellow", "-h"].map bytes
  | .reboot => ["yellow", "-r"].map bytes
  | _ => []

/-! ## Lines of smb.conf -/

/-- The lines of `typeLines`, with the holes of the here-documents. -/
def typeWords (n : Bytes) (typ : ShareType) (owner : Bytes) : List Word :=
  let path : Word := opt "   path = /srv/nas/" n
  match typ with
  | .priv =>
    [[.lit "   comment = ", .hole n, .lit " private"], path] ++
    lits ["   browseable = yes", "   read only = no", "   guest ok = no"] ++
    [[.lit "   valid users = ", .hole owner, .lit " @smbadmins"]] ++
    lits ["   force group = users", "   create mask = 0664", "   directory mask = 2775"]
  | .family =>
    [[.lit "   comment = ", .hole n, .lit " (family)"], path] ++
    lits ["   browseable = yes", "   read only = no", "   guest ok = no",
      "   valid users = @users", "   force group = users", "   create mask = 0664",
      "   directory mask = 2775"]
  | .guest =>
    [[.lit "   comment = ", .hole n, .lit " (guest ok)"], path] ++
    lits ["   browseable = yes", "   read only = no", "   guest ok = yes",
      "   force group = users", "   create mask = 0664", "   directory mask = 2775"]

/-- The lines of `shareBlock`. -/
def blockWords (n : Bytes) (typ : ShareType) (owner : Bytes) : List Word :=
  [[], [.lit "[", .hole n, .lit "]"]] ++ typeWords n typ owner ++
    lits ["   vfs objects = recycle", "   recycle:repository = .recycle/%U",
      "   recycle:keeptree = yes", "   recycle:versions = yes", "   recycle:directory_mode = 0770",
      "   recycle:exclude = *.tmp,*.temp,~$*,*.TMP"]

/-- Every line the script can add to smb.conf, `#` for a hole. -/
def lineShapes : List String :=
  ["", "[#]", "   comment = # private", "   comment = # (family)", "   comment = # (guest ok)",
   "   path = /srv/nas/#", "   browseable = yes", "   read only = no", "   guest ok = no",
   "   guest ok = yes", "   valid users = # @smbadmins", "   valid users = @users",
   "   force group = users", "   create mask = 0664", "   directory mask = 2775",
   "   vfs objects = recycle", "   recycle:repository = .recycle/%U", "   recycle:keeptree = yes",
   "   recycle:versions = yes", "   recycle:directory_mode = 0770",
   "   recycle:exclude = *.tmp,*.temp,~$*,*.TMP"]

end Panel
