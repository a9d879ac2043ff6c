import MyCloud.Shell.Text

/-!
# `wsdd2`: memory, addresses and interfaces

Reads and writes of memory are explicit where they can go wrong: `Fault` is an access outside of the
object. The addresses of the two families, the interfaces that `getifaddrs` lists, and `connected_if`, the
interface whose subnet a sender is in.
-/

set_option autoImplicit false

namespace Wsdd

open Shell

/-! ## Memory -/

/-- An access out of bounds. -/
inductive Fault
  /-- A read behind the buffer. -/
  | read
  /-- A write behind the object. -/
  | write
  /-- `NULL` is dereferenced. -/
  | null
  deriving DecidableEq

/-- `buf[i]`. -/
def rd (buf : Bytes) (i : ℕ) : Except Fault UInt8 :=
  match buf[i]? with
  | some b => .ok b
  | none => .error .read

/-- The string that begins with these octets: it ends before the first zero. -/
def cstr (l : Bytes) : Bytes := l.takeWhile (· ≠ 0)

def toLower (c : UInt8) : UInt8 := if 'A'.toUInt8 ≤ c ∧ c ≤ 'Z'.toUInt8 then c + 32 else c

/-! ## Addresses -/

inductive Family
  | inet | inet6
  deriving DecidableEq

/-- The octets of an address. -/
def Family.size : Family → ℕ
  | .inet => 4
  | .inet6 => 16

/-- An address in network order. -/
structure Addr where
  family : Family
  octets : Bytes
  size : octets.length = family.size
  deriving DecidableEq

structure Ifaddr where
  ifa_name : Bytes
  /-- None: no address, or one of another family. -/
  ifa_addr : Option Addr
  ifa_netmask : Bytes
  /-- `IFF_LOOPBACK`. -/
  loopback : Bool
  /-- `IFF_MULTICAST`. -/
  multicast : Bool
  deriving DecidableEq

def masked (a m : Bytes) : Bytes := List.zipWith (· &&& ·) a m

/-- The first interface that matches. A list that cannot be had is the empty one. -/
def connected_if : List Ifaddr → Addr → Option Addr
  | [], _ => none
  | ifa :: rest, sa =>
    match ifa.ifa_addr with
    | none => connected_if rest sa
    | some a =>
      if sa.family ≠ a.family then connected_if rest sa
      else if masked a.octets ifa.ifa_netmask = masked sa.octets ifa.ifa_netmask then some a
      else connected_if rest sa

end Wsdd
