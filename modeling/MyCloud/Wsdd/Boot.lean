import Mathlib.Data.List.DropRight
import MyCloud.Wsdd.Net

/-!
# `wsd.c`: what the responder says of itself

The UUIDs, the table of boot parameters with `set_getresp`, the option `-b` of `main`, and the
parameters that are asked of `testparm`.
-/

set_option autoImplicit false

namespace Wsdd

open Shell

def colon : UInt8 := ':'.toUInt8

def comma : UInt8 := ','.toUInt8

def dash : UInt8 := '-'.toUInt8

def isspace (c : UInt8) : Bool := c = 32 ∨ 9 ≤ c ∧ c ≤ 13

/-! ## UUIDs -/

/-- `%0wlx`. -/
def hex (w n : ℕ) : Bytes :=
  (List.range w).reverse.map fun i =>
    let d := n / Nat.pow 16 i % 16
    UInt8.ofNat (if d < 10 then 48 + d else 87 + d)

/-- The six numbers are those of `mrand48`, masked. -/
structure Random where
  a : UInt32
  b : UInt16
  c : UInt16
  d : UInt16
  e : UInt32
  f : UInt16

def uuid_random (r : Random) : Bytes :=
  hex 8 r.a.toNat ++ dash :: hex 4 r.b.toNat ++ dash :: hex 4 r.c.toNat ++ dash :: hex 4 r.d.toNat ++
    dash :: hex 8 r.e.toNat ++ hex 4 r.f.toNat

/-- `isdigit(c) || (islower(c) && isxdigit(c))`. -/
def isLowerHex (c : UInt8) : Bool :=
  '0'.toUInt8 ≤ c ∧ c ≤ '9'.toUInt8 ∨ 'a'.toUInt8 ≤ c ∧ c ≤ 'f'.toUInt8

/-- The loop of `uuid_endpoint`, with what is written so far. -/
def endpointLoop (uuid : Bytes) : Bytes → Bytes
  | [] => uuid
  | c :: t =>
    if uuid.length < 36 ∧ isLowerHex c then
      let i := uuid.length
      endpointLoop (if i = 8 ∨ i = 13 ∨ i = 18 ∨ i = 23 then uuid ++ [dash, c] else uuid ++ [c]) t
    else uuid

/-- The UUID made of `/etc/machine-id`, the empty text if there is none. -/
def uuid_endpoint (machine_id : Option Bytes) : Bytes :=
  match machine_id with
  | none => []
  | some t =>
    let uuid := endpointLoop [] t
    if uuid.length = 36 then uuid else []

/-! ## Boot parameters -/

structure BootParam where
  key : Bytes
  default : Bytes
  value : Option Bytes
  deriving DecidableEq

def bootinfo : List BootParam := [
  ⟨bytes "vendor:", bytes "NETGEAR", none⟩,
  ⟨bytes "model:", bytes "ReadyNAS 314", none⟩,
  ⟨bytes "serial:", bytes "0", none⟩,
  ⟨bytes "sku:", bytes "RN314", none⟩,
  ⟨bytes "vendorurl:", bytes "http://www.netgear.com", none⟩,
  ⟨bytes "modelurl:", bytes "http://www.netgear.com", none⟩,
  ⟨bytes "presentationurl:", bytes "http://www.netgear.com", none⟩]

/-- `!strncasecmp(bootinfo[i].key, str, keylen)`, with the first `keylen` octets of `str`. -/
def keyMatches (key str : Bytes) : Prop := str.map toLower <+: key.map toLower

instance (key str : Bytes) : Decidable (keyMatches key str) :=
  inferInstanceAs (Decidable (_ <+: _))

/-- The first value that is set for the first key that matches. `none`: no key matches. -/
def setFirst (str value : Bytes) : List BootParam → Option (List BootParam)
  | [] => none
  | b :: t =>
    if keyMatches b.key str then some ({ b with value := some (b.value.getD value) } :: t)
    else (setFirst str value t).map (b :: ·)

/-- Whether it succeeds, `*next` (`none`: `NULL`), and the table. -/
structure SetResult where
  ok : Bool
  next : Option Bytes
  table : List BootParam

def set_getresp (str : Bytes) (table : List BootParam) : SetResult :=
  let str := str.dropWhile isspace
  if str = [] then ⟨true, some str, table⟩
  else
    let key := str.takeWhile fun c => !isspace c && c ≠ colon && c ≠ comma
    match str.drop key.length with
    | [] => ⟨false, some [], table⟩
    | c :: p =>
      if !isspace c && c ≠ colon then ⟨false, some (c :: p), table⟩
      else
        let p := p.dropWhile isspace
        if p = [] ∨ p.head? = some colon then ⟨false, some p, table⟩
        else
          let val := p.takeWhile fun c => c ≠ colon && c ≠ comma
          let rest := p.drop val.length
          if rest.head? = some colon then ⟨false, some rest, table⟩
          else
            let next := if rest = [] then none else some rest.tail
            -- `strndup(val, vallen + 1)`
            match setFirst key (p.take (val.length + 1)) table with
            | none => ⟨false, next, table⟩
            | some table => ⟨true, next, table⟩

def get_getresp (table : List BootParam) (key : Bytes) : Bytes :=
  match table.find? (·.key = key) with
  | some b => b.value.getD b.default
  | none => bytes "UNKNOWN"

/-- The lines of `/proc/sys/dev/boot/info`. `next` is `NULL` there, and a blank line is stored to it. -/
def init_getresp : List Bytes → List BootParam → Except Fault (List BootParam)
  | [], table => .ok table
  | l :: ls, table =>
    if l.dropWhile isspace = [] then .error .null
    else init_getresp ls (set_getresp l table).table

/-- The loop of the option `-b`: whether it ends without a bad parameter. `none`: not yet, after so many
rounds. -/
def bootOption : ℕ → Option Bytes → List BootParam → Option (Bool × List BootParam)
  | _, none, table => some (true, table)
  | 0, some _, _ => none
  | n + 1, some optarg, table =>
    let r := set_getresp optarg table
    if r.ok then bootOption n r.next r.table else some (false, r.table)

/-! ## Samba parameters -/

/-- `fgets` of the output of `testparm` into `buf[80]`, trimmed, or the default. -/
def get_smbparm (output _default : Bytes) : Bytes :=
  let buf := cstr ((output.takeWhile (· ≠ nl) ++ [nl]).take (min 79 output.length))
  if buf = [] ∨ buf.head? = some nl then _default
  else (buf.rdropWhile isspace).dropWhile isspace

end Wsdd
