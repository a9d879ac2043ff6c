import MyCloud.Panel.Users

/-!
# What build stage 3 leaves on the box

The smb.conf written by `build-stretch-stage3.sh`, and the accounts, groups and SMB accounts its
chroot part creates: `alpha` in the groups `sudo` and `smbadmins`, one SMB account. The base system
under it, `base`, is any: its accounts are those the packages created, its `adduser` is not in the
sources.
-/

set_option autoImplicit false

namespace Panel

open Shell

def NASPASS : Bytes := bytes "CHANGE_ME_alpha_password"

def globalLines : List Line :=
  ["   null passwords = yes",
   "   workgroup = OLYMPUS",
   "   server string = Muse of Memory",
   "   netbios name = CLIO",
   "   security = user",
   "   map to guest = Bad User",
   "   server min protocol = SMB2_10",
   "   server role = standalone server",
   "   disable netbios = no",
   "   dns proxy = no",
   "   log file = /var/log/samba/log.%m",
   "   max log size = 1000",
   "   socket options = TCP_NODELAY IPTOS_LOWDELAY",
   "   # 256MB RAM box: keep it lean",
   "   deadtime = 15"].map bytes

def publicLines : List Line :=
  recycleLines ++
  ["   comment = Public (guest)",
   "   path = /srv/nas/public",
   "   browseable = yes",
   "   read only = no",
   "   guest ok = yes",
   "   create mask = 0664",
   "   directory mask = 0775",
   "   force group = users"].map bytes

def alphaLines : List Line :=
  recycleLines ++
  ["   comment = alpha private",
   "   path = /srv/nas/alpha",
   "   browseable = yes",
   "   read only = no",
   "   guest ok = no",
   "   valid users = alpha @smbadmins",
   "   force group = users",
   "   create mask = 0664",
   "   directory mask = 2775"].map bytes

/-- The here-document of "write smb.conf". -/
def stage3Conf : Bytes :=
  unlines (header (bytes "global") :: globalLines ++ [] :: header (bytes "public") :: publicLines ++
    [] :: header alpha :: alphaLines)

/-- `mkdir`, `chown` and `chmod` of the two share directories. -/
def stage3Dirs : AList fun _ : Bytes => Dir :=
  (AList.singleton (bytes "public") ⟨bytes "root", users, bytes "0775"⟩).insert alpha
    ⟨alpha, users, bytes "2775"⟩

/-- The base system: its accounts, and the uid its `adduser` gives over the accounts there are. -/
structure Base where
  accounts : AList fun _ : Bytes => ℕ
  newUid : (AList fun _ : Bytes => ℕ) → ℕ

/-- The first uid from 1000 on that no account has. -/
def firstUid (a : AList fun _ : Bytes => ℕ) : ℕ :=
  ((List.range' 1000 (a.entries.length + 1)).find? (· ∉ a.entries.map (·.2))).getD 1000

instance : EmptyCollection Base := ⟨⟨∅, firstUid⟩⟩

/-- The box after stage 3. -/
def stage3World (base : Base) : World where
  smb := stage3Conf
  accounts := base.accounts.insert alpha (base.newUid base.accounts)
  groups := [(bytes "sudo", alpha), (smbadmins, alpha)]
  passdb := AList.singleton alpha (some NASPASS)
  dirs := stage3Dirs
  led := ⟨bytes "blue", bytes "255", none⟩
  dlna := false
  usb := none
  shutdown := none
  newUid := base.newUid

end Panel
