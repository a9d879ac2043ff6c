import MyCloud.Wire.Dns

/-!
# Netlink messages

Messages of the kernel about addresses: a datagram holds messages one after the other, and a message
about an address has attributes one after the other. Each begins at a multiple of four octets, and
what fills the gaps is not given. The numbers are little-endian, as on the box.

* `Packed R as d`: the octets `d` hold the things `as`, each written by `R`.
* `Message.Wire`, `Attr.Wire`: a message and an attribute as octets.
* `fitting`: the messages that a buffer holds whole.
-/

set_option autoImplicit false

namespace Netlink

open Shell Dns

/-! ## Numbers -/

def le16 (n : ℕ) : Bytes := [.ofNat n, .ofNat (n / 256)]

def le32 (n : ℕ) : Bytes := [.ofNat n, .ofNat (n / 256), .ofNat (n / 65536), .ofNat (n / 16777216)]

@[simp] theorem length_le16 (n : ℕ) : (le16 n).length = 2 := rfl

@[simp] theorem length_le32 (n : ℕ) : (le32 n).length = 4 := rfl

/-- The next multiple of four. -/
def align (n : ℕ) : ℕ := (n + 3) / 4 * 4

theorem le_align (n : ℕ) : n ≤ align n := by
  unfold align
  omega

theorem align_dvd (n : ℕ) : 4 ∣ align n := Nat.dvd_mul_left 4 _

/-- A multiple of four that is enough for `n` is enough for its alignment. -/
theorem align_le_iff {n m : ℕ} (h : 4 ∣ m) : align n ≤ m ↔ n ≤ m := by
  unfold align
  omega

/-! ## Things one after the other -/

/-- The room that things of these sizes take. -/
def room : List ℕ → ℕ
  | [] => 0
  | n :: ns => align n + room ns

section
variable {α : Type}

inductive Packed (R : α → Bytes → Prop) : List α → Bytes → Prop
  | nil : Packed R [] []
  | cons {a : α} {as : List α} {l gap d : Bytes} : R a l → gap.length = align l.length - l.length →
      Packed R as d → Packed R (a :: as) (l ++ gap ++ d)

variable {R : α → Bytes → Prop} {as : List α} {d : Bytes}

theorem Packed.length_eq {size : α → ℕ} (hR : ∀ a l, R a l → l.length = size a)
    (h : Packed R as d) : d.length = room (as.map size) := by
  induction h with
  | nil => rfl
  | @cons a as l gap d hl hgap _ ih =>
    have hle := le_align l.length
    rw [List.map_cons, room, ← ih, ← hR a l hl, List.length_append, List.length_append, hgap]
    omega

theorem Packed.dvd_length (h : Packed R as d) : 4 ∣ d.length := by
  induction h with
  | nil => exact Nat.dvd_zero 4
  | @cons a as l gap d hl hgap _ ih =>
    have hle := le_align l.length
    have hdvd := align_dvd l.length
    rw [List.length_append, List.length_append, hgap]
    omega

end

/-! ## Attributes -/

structure Attr where
  type : ℕ
  data : Bytes

/-- The length and the type have 16 bits each. -/
def Attr.Wire (a : Attr) (l : Bytes) : Prop :=
  a.type < 65536 ∧ 4 + a.data.length < 65536 ∧
    l = le16 (4 + a.data.length) ++ le16 a.type ++ a.data

def Attr.size (a : Attr) : ℕ := 4 + a.data.length

theorem Attr.Wire.length_eq (a : Attr) (l : Bytes) (h : a.Wire l) : l.length = a.size := by
  rw [h.2.2, List.length_append, List.length_append, length_le16, length_le16, Attr.size]

/-! ## Messages -/

/-- `NLMSG_DONE`. -/
def DONE : ℕ := 3

/-- `RTM_NEWADDR`. -/
def NEWADDR : ℕ := 20

/-- `RTM_DELADDR`. -/
def DELADDR : ℕ := 21

/-- `IFA_CACHEINFO`. -/
def CACHEINFO : ℕ := 6

inductive Message
  /-- A new address, or a change of one: `struct ifaddrmsg` and the attributes. -/
  | newAddr (ifa : Bytes) (attrs : List Attr)
  | other (type : ℕ) (payload : Bytes)

/-- The length, the type, ten octets with the flags, the number and the sender, and the payload. -/
def header (type : ℕ) (info payload : Bytes) : Bytes :=
  le32 (16 + payload.length) ++ le16 type ++ info ++ payload

/-- The times when the address was made and when it was last changed, of `struct ifa_cacheinfo`. -/
def Attr.stamps (a : Attr) : Bytes × Bytes := ((a.data.drop 8).take 4, (a.data.drop 12).take 4)

inductive Message.Wire : Message → Bytes → Prop
  | newAddr {ifa info d : Bytes} {attrs : List Attr} : ifa.length = 8 → info.length = 10 →
      Packed Attr.Wire attrs d → (∀ a ∈ attrs, a.type = CACHEINFO → 16 ≤ a.data.length) →
      24 + d.length < 4294967296 →
      Message.Wire (.newAddr ifa attrs) (header NEWADDR info (ifa ++ d))
  | other {type : ℕ} {info payload : Bytes} : type < 65536 → type ≠ NEWADDR → info.length = 10 →
      16 + payload.length < 4294967296 →
      Message.Wire (.other type payload) (header type info payload)

def Message.type : Message → ℕ
  | .newAddr _ _ => NEWADDR
  | .other type _ => type

def Message.size : Message → ℕ
  | .newAddr _ attrs => 24 + room (attrs.map Attr.size)
  | .other _ payload => 16 + payload.length

theorem length_header (type : ℕ) {info : Bytes} (h : info.length = 10) (payload : Bytes) :
    (header type info payload).length = 16 + payload.length := by
  rw [header, List.length_append, List.length_append, List.length_append, length_le32,
    length_le16, h]

theorem Message.Wire.length_eq (m : Message) (l : Bytes) (h : m.Wire l) : l.length = m.size := by
  cases h with
  | newAddr hifa hinfo hd _ _ =>
    rw [length_header _ hinfo, List.length_append, hifa, hd.length_eq Attr.Wire.length_eq,
      Message.size]
    omega
  | other _ _ hinfo _ => exact length_header _ hinfo _

/-- An address is new, and not a changed one, or it is lost. -/
def Message.Changes (m : Message) : Prop :=
  match m with
  | .newAddr _ attrs => ∀ a ∈ attrs, a.type = CACHEINFO → a.stamps.1 = a.stamps.2
  | .other type _ => type = DELADDR

instance : (m : Message) → Decidable m.Changes
  | .newAddr _ attrs =>
    inferInstanceAs (Decidable (∀ a ∈ attrs, a.type = CACHEINFO → a.stamps.1 = a.stamps.2))
  | .other type _ => inferInstanceAs (Decidable (type = DELADDR))

/-- The messages that lie whole in the first `n` octets. -/
def fitting : ℕ → List Message → List Message
  | _, [] => []
  | n, m :: ms => if align m.size ≤ n then m :: fitting (n - align m.size) ms else []

/-- Messages that need no more than `n` octets. -/
theorem fitting_all {ms : List Message} {n : ℕ} (h : room (ms.map Message.size) ≤ n) :
    fitting n ms = ms := by
  induction ms generalizing n with
  | nil => rfl
  | cons m ms ih =>
    rw [List.map_cons, room] at h
    rw [fitting, if_pos (by omega), ih (by omega)]

/-- What lies behind the datagram plays no part. -/
theorem fitting_length {ms : List Message} {d : Bytes} (h : Packed Message.Wire ms d) (n : ℕ) :
    fitting (min n d.length) ms = fitting n ms := by
  have hlen := h.length_eq Message.Wire.length_eq
  rcases Nat.le_total n d.length with hle | hle
  · rw [Nat.min_eq_left hle]
  · rw [Nat.min_eq_right hle, fitting_all hlen.ge, fitting_all (hlen.ge.trans hle)]

end Netlink
