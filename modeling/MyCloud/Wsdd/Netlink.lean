import MyCloud.Wire.Netlink
import MyCloud.Wsdd.Daemon

/-!
# `wsdd2.c`: changes of addresses

`netlink_recv` reads one datagram of the kernel into a buffer of the stack and looks through its
messages, and `is_new_addr` through the attributes of one. The macros of `linux/netlink.h` and
`linux/rtnetlink.h` are written out; `size_t` has 32 bits, as on the box.
-/

set_option autoImplicit false

namespace Wsdd

open Shell Netlink

/-- `*(__u16 *)(buf + i)`. -/
def rd16 (buf : Bytes) (i : ℕ) : Except Fault ℕ := do
  return (← rd buf i).toNat + 256 * (← rd buf (i + 1)).toNat

/-- `*(__u32 *)(buf + i)`. -/
def rd32 (buf : Bytes) (i : ℕ) : Except Fault ℕ := do
  return (← rd16 buf i) + 65536 * (← rd16 buf (i + 2))

theorem lt_of_rd16 {buf : Bytes} {i n : ℕ} (h : rd16 buf i = .ok n) : i < buf.length := by
  by_contra hle
  have hr : rd buf i = .error .read := by
    rw [rd, List.getElem?_eq_none (Nat.le_of_not_lt hle)]
  rw [rd16, hr] at h
  cases h

/-! ## One message -/

/-- `cstamp != tstamp` in the attribute at `rta`. -/
def restamped (buf : Bytes) (rta : ℕ) : Except Fault Bool := do
  return (← rd32 buf (rta + 12)) ≠ (← rd32 buf (rta + 16))

/-- `while (RTA_OK(rta, rtasize))`. `RTA_NEXT` subtracts from an unsigned `rtasize`. -/
def attrLoop (buf : Bytes) (rta rtasize : ℕ) : Except Fault Bool :=
  if rtasize < 4 then .ok true
  else
    match h : rd16 buf rta with
    | .error f => .error f
    | .ok rta_len =>
      if h4 : rta_len < 4 ∨ rtasize < rta_len then .ok true
      else do
        let stale ← if (← rd16 buf (rta + 2)) = CACHEINFO then restamped buf rta else pure false
        if stale then return false
        else
          attrLoop buf (rta + align rta_len)
            ((rtasize + 4294967296 - align rta_len) % 4294967296)
termination_by buf.length - rta
decreasing_by
  have := lt_of_rd16 h
  have := le_align rta_len
  omega

/-- For the message at `nh` with this length and type. `IFA_PAYLOAD` subtracts 24. -/
def is_new_addr (buf : Bytes) (nh nlmsg_len nlmsg_type : ℕ) : Except Fault Bool :=
  if nlmsg_type ≠ NEWADDR then .ok false
  else attrLoop buf (nh + 24) ((nlmsg_len + 4294967296 - 24) % 4294967296)

/-! ## One datagram -/

/-- The loop over the messages: whether the service is restarted. `msglen` below zero ends it just
as zero does. -/
def msgLoop (buf : Bytes) (nh msglen : ℕ) : Except Fault Bool :=
  if _h : msglen < 16 then .ok false
  else do
    let nlmsg_len ← rd32 buf nh
    if _h' : nlmsg_len < 16 ∨ msglen < nlmsg_len then return false
    else
      let nlmsg_type ← rd16 buf (nh + 4)
      if nlmsg_type = DONE then return false
      else if ← is_new_addr buf nh nlmsg_len nlmsg_type then return true
      else if nlmsg_type = DELADDR then return true
      else msgLoop buf (nh + align nlmsg_len) (msglen - align nlmsg_len)
termination_by msglen
decreasing_by
  have := le_align nlmsg_len
  omega

/-- `char buf[4096]`. -/
def netlinkBuf : ℕ := 4096

/-- What the datagram `d` is for the main loop, over what the stack held; the rest of a longer
datagram is lost. -/
def netlink_recv (stale d : Bytes) : Except Fault Arrival :=
  let input := d.take netlinkBuf
  if input = [] then .ok .silent
  else (msgLoop (input ++ stale.drop input.length) 0 input.length).map .addresses

end Wsdd
