import MyCloud.Wsdd.Net
import MyCloud.Wire.Dns

/-!
# `llmnr.c`: the LLMNR responder

`llmnr_recv` reads one datagram into a buffer of the stack and `llmnr_send_response` answers it.

The buffer holds the datagram, a zero octet, and behind it what the stack held before.
-/

set_option autoImplicit false

namespace Wsdd

open Shell Dns

/-! ## The name in the question -/

def DNS_TYPE_A : UInt16 := 0x0001

def DNS_TYPE_AAAA : UInt16 := 0x001C

def DNS_CLASS_IN : UInt16 := 0x0001

/-- `char in_label[64]`. -/
def labelSize : ℕ := 64

/-- `in_name` with one more label. -/
def appendLabel (in_name : Option Bytes) (l : Bytes) : Bytes :=
  match in_name with
  | none => cstr l
  | some n => n ++ '.'.toUInt8 :: cstr l

/-- The loop over the labels: the name, and `in_name_p`. `none`: message compression. -/
def labels (buf : Bytes) (p : ℕ) (in_name : Option Bytes) :
    Except Fault (Option (ℕ × Option Bytes)) :=
  match h : buf[p]? with
  | none => .error .read
  | some n =>
    if n = 0 then .ok (some (p, in_name))
    else if 0xC0 ≤ n then .ok none
    else if labelSize ≤ n.toNat then .error .write
    else if buf.length < p + 1 + n.toNat then .error .read
    else labels buf (p + 1 + n.toNat) (some (appendLabel in_name ((buf.drop (p + 1)).take n.toNat)))
termination_by buf.length - p
decreasing_by
  have := (List.getElem?_eq_some_iff.1 h).1
  omega

/-! ## The tests -/

/-- The tests of the header. -/
def isQuery (buf : Bytes) (inlen : ℕ) : Except Fault Bool := do
  if inlen < 13 then return false
  if (← rd buf 2) &&& 0xF8 ≠ 0 then return false
  if (← rd buf 2) &&& 0x04 ≠ 0 then return false
  if (← rd buf 2) &&& 0x02 ≠ 0 then return false
  if get16 (← rd buf 4) (← rd buf 5) ≠ 1 then return false
  if get16 (← rd buf 6) (← rd buf 7) ≠ 0 ∨ get16 (← rd buf 8) (← rd buf 9) ≠ 0 then return false
  return true

/-- The tests behind the loop, with `in_name_p` at `p`: the type that is asked for. -/
def question (buf : Bytes) (p : ℕ) (in_name : Option Bytes) (myname : Bytes) :
    Except Fault (Option UInt16) := do
  let qtype := get16 (← rd buf (p + 1)) (← rd buf (p + 2))
  if qtype ≠ DNS_TYPE_A ∧ qtype ≠ DNS_TYPE_AAAA then return none
  if get16 (← rd buf (p + 3)) (← rd buf (p + 4)) ≠ DNS_CLASS_IN then return none
  match in_name with
  | none => return none
  | some name =>
    if myname.map toLower ≠ name.map toLower then return none
    return some qtype

/-! ## The answer -/

/-- A pointer to the name in the question, type, class, TTL, length and address. -/
def answerSection (ci : Addr) : Bytes :=
  [0xC0, 0x0C] ++ put16 (if ci.family = .inet then DNS_TYPE_A else DNS_TYPE_AAAA) ++
    put16 DNS_CLASS_IN ++ put32 0 ++ put16 (.ofNat ci.octets.length) ++ ci.octets

/-- `out`: the incoming message with other flags and `ANCOUNT`, and the answer. -/
def response (input : Bytes) (qtype : UInt16) (ci : Addr) : Bytes :=
  let out := ((input.set 2 0x80).set 3 0x00).set 6 0x00
  if qtype = DNS_TYPE_A ∧ ci.family = .inet6 ∨ qtype = DNS_TYPE_AAAA ∧ ci.family = .inet then
    out.set 7 0x00
  else out.set 7 0x01 ++ answerSection ci

/-- The datagram that is sent, none if the function returns before. -/
def llmnr_send_response (ifs : List Ifaddr) (sa : Addr) (buf : Bytes) (inlen : ℕ) (myname : Bytes) :
    Except Fault (Option Bytes) := do
  match connected_if ifs sa with
  | none => return none
  | some ci =>
    if !(← isQuery buf inlen) then return none
    match ← labels buf 12 none with
    | none => return none
    | some (p, in_name) =>
      match ← question buf p in_name myname with
      | none => return none
      | some qtype => return some (response (buf.take inlen) qtype ci)

/-! ## One datagram -/

/-- `uint8_t buf[10000]`. -/
def bufSize : ℕ := 10000

/-- The buffer after `recvfrom` and `buf[len] = '\0'`, over what the stack held. -/
def recvBuf (stale input : Bytes) : Bytes := input ++ 0 :: stale.drop (input.length + 1)

/-- What is sent to `sa` for its datagram `d`; the rest of a longer datagram is lost. -/
def llmnr_recv (ifs : List Ifaddr) (myname stale : Bytes) (sa : Addr) (d : Bytes) :
    Except Fault (Option Bytes) :=
  let input := d.take (bufSize - 1)
  if input = [] then .ok none
  else llmnr_send_response ifs sa (recvBuf stale input) input.length myname

end Wsdd
