import MyCloud.Shell.Text

/-!
# DNS messages

The message format of DNS and of the protocols built on it, as a relation between octets and messages:
`Wire m x`, the octets `m` are the message `x`. A name may end in a pointer to a name before it.

* `At m p l`: the octets `l` stand at the position `p` of `m`.
* `NameAt`, `QuestionAt`, `RecordAt`: a name, a question, a record at a position, and where it ends.
* `wire_unique`: octets are one message at most.
* `NameAt.mono`, `RecordAt.mono`: what stands behind the header stays, whatever the header says and
  whatever follows.
-/

set_option autoImplicit false

namespace Dns

open Shell

/-! ## Octets -/

/-- The octets `l` at the position `p`. -/
def At (m : Bytes) (p : ℕ) (l : Bytes) : Prop := l <+: m.drop p

instance (m : Bytes) (p : ℕ) (l : Bytes) : Decidable (At m p l) :=
  inferInstanceAs (Decidable (l <+: m.drop p))

theorem at_append {m : Bytes} {p : ℕ} {l r : Bytes} :
    At m p (l ++ r) ↔ At m p l ∧ At m (p + l.length) r := by
  unfold At
  constructor
  · rintro ⟨t, ht⟩
    refine ⟨⟨r ++ t, by rw [← ht, List.append_assoc]⟩, ⟨t, ?_⟩⟩
    rw [← List.drop_drop, ← ht, List.append_assoc, List.drop_left]
  · rintro ⟨⟨t, ht⟩, h⟩
    rw [← List.drop_drop, ← ht, List.drop_left] at h
    rw [← ht]
    exact List.prefix_append_right_inj l |>.2 h

theorem at_cons {m : Bytes} {p : ℕ} {b : UInt8} {l : Bytes} :
    At m p (b :: l) ↔ m[p]? = some b ∧ At m (p + 1) l := by
  have h : At m p [b] ↔ m[p]? = some b := by
    unfold At
    rw [← List.head?_drop]
    cases m.drop p with
    | nil => simp
    | cons c t => simp [eq_comm]
  rw [← h]
  exact at_append (l := [b])

theorem at_nil (m : Bytes) (p : ℕ) : At m p [] := List.nil_prefix

/-- Two texts of the same length at the same position. -/
theorem At.eq {m : Bytes} {p : ℕ} {l l' : Bytes} (h : At m p l) (h' : At m p l')
    (hl : l.length = l'.length) : l = l' :=
  (List.prefix_of_prefix_length_le h h' hl.le).eq_of_length hl

theorem At.le_length {m : Bytes} {p : ℕ} {l : Bytes} (h : At m p l) (hl : l ≠ []) :
    p + l.length ≤ m.length := by
  have h1 := h.length_le
  have h2 := List.length_pos_iff.2 hl
  rw [List.length_drop] at h1
  omega

/-- What stands at or behind the position `k` in both. -/
theorem At.mono {m m' : Bytes} {k p : ℕ} {l : Bytes} (h : At m p l) (hk : k ≤ p)
    (hm : m.drop k <+: m'.drop k) : At m' p l := by
  obtain ⟨i, rfl⟩ := Nat.exists_eq_add_of_le hk
  unfold At at *
  rw [← List.drop_drop] at *
  exact h.trans (hm.drop i)

/-! ## Numbers -/

def put16 (x : UInt16) : Bytes := [.ofNat (x.toNat / 256), .ofNat x.toNat]

/-- `a * 256 + b`. -/
def get16 (a b : UInt8) : UInt16 := .ofNat (a.toNat * 256 + b.toNat)

theorem get16_put16 (x : UInt16) : get16 (.ofNat (x.toNat / 256)) (.ofNat x.toNat) = x := by
  have hx := x.toNat_lt
  rw [← UInt16.toNat_inj, get16]
  simp only [UInt16.toNat_ofNat', UInt8.toNat_ofNat']
  omega

theorem put16_get16 (a b : UInt8) : put16 (get16 a b) = [a, b] := by
  have ha := a.toNat_lt
  have hb := b.toNat_lt
  simp only [put16, get16, UInt16.toNat_ofNat', List.cons.injEq, and_true, ← UInt8.toNat_inj,
    UInt8.toNat_ofNat']
  omega

@[simp] theorem length_put16 (x : UInt16) : (put16 x).length = 2 := rfl

theorem put16_inj {x y : UInt16} (h : put16 x = put16 y) : x = y := by
  rw [← get16_put16 x, ← get16_put16 y]
  unfold put16 at h
  injection h with h1 h
  injection h with h2
  rw [h1, h2]

def put32 (x : UInt32) : Bytes :=
  [.ofNat (x.toNat / 16777216), .ofNat (x.toNat / 65536), .ofNat (x.toNat / 256), .ofNat x.toNat]

@[simp] theorem length_put32 (x : UInt32) : (put32 x).length = 4 := rfl

theorem put32_inj {x y : UInt32} (h : put32 x = put32 y) : x = y := by
  have hx := x.toNat_lt
  have hy := y.toNat_lt
  simp only [put32, List.cons.injEq, and_true, ← UInt8.toNat_inj, UInt8.toNat_ofNat'] at h
  rw [← UInt32.toNat_inj]
  omega

/-! ## Messages -/

structure Question where
  name : List Bytes
  type : UInt16
  cls : UInt16
  deriving DecidableEq

structure Record where
  name : List Bytes
  type : UInt16
  cls : UInt16
  ttl : UInt32
  rdata : Bytes
  deriving DecidableEq

structure Message where
  id : UInt16
  flags : UInt16
  questions : List Question
  answers : List Record
  authority : List Record
  additional : List Record
  deriving DecidableEq

/-- The twelve octets before the sections. -/
def Message.header (x : Message) : Bytes :=
  put16 x.id ++ put16 x.flags ++ put16 (.ofNat x.questions.length) ++
    put16 (.ofNat x.answers.length) ++ put16 (.ofNat x.authority.length) ++
    put16 (.ofNat x.additional.length)

theorem Message.length_header (x : Message) : x.header.length = 12 := rfl

/-! ## The wire format -/

/-- The name at `p`, as its labels, and where it ends. A pointer leads to a name that begins before
`lim`, and before that one for the next pointer. -/
inductive NameAt (m : Bytes) : ℕ → ℕ → List Bytes → ℕ → Prop
  | root {lim p : ℕ} : m[p]? = some 0 → NameAt m lim p [] (p + 1)
  | label {lim p q : ℕ} {l : Bytes} {ls : List Bytes} : 0 < l.length → l.length ≤ 63 →
      At m p (.ofNat l.length :: l) → NameAt m lim (p + 1 + l.length) ls q →
      NameAt m lim p (l :: ls) q
  | pointer {lim p t q : ℕ} {b c : UInt8} {ls : List Bytes} : At m p [b, c] → 0xC0 ≤ b →
      t = (b.toNat - 0xC0) * 256 + c.toNat → 12 ≤ t → t < lim → NameAt m t t ls q →
      NameAt m lim p ls (p + 2)

/-- Something at `p`, as a value, and where it ends. -/
abbrev Format (α : Type) := Bytes → ℕ → α → ℕ → Prop

def QuestionAt : Format Question := fun m p x q =>
  ∃ n, NameAt m p p x.name n ∧ At m n (put16 x.type ++ put16 x.cls) ∧ q = n + 4

def RecordAt : Format Record := fun m p x q =>
  ∃ n, NameAt m p p x.name n ∧ x.rdata.length < 65536 ∧
    At m n (put16 x.type ++ put16 x.cls ++ put32 x.ttl ++ put16 (.ofNat x.rdata.length) ++ x.rdata) ∧
    q = n + 10 + x.rdata.length

/-- One after another. -/
inductive Many {α : Type} (F : Format α) (m : Bytes) : ℕ → List α → ℕ → Prop
  | nil {p : ℕ} : Many F m p [] p
  | cons {p q r : ℕ} {x : α} {xs : List α} : F m p x q → Many F m q xs r → Many F m p (x :: xs) r

/-- The octets are the message, with nothing left over. -/
def Wire (m : Bytes) (x : Message) : Prop :=
  At m 0 x.header ∧
  x.questions.length < 65536 ∧ x.answers.length < 65536 ∧ x.authority.length < 65536 ∧
    x.additional.length < 65536 ∧
  ∃ a b c, Many QuestionAt m 12 x.questions a ∧ Many RecordAt m a x.answers b ∧
    Many RecordAt m b x.authority c ∧ Many RecordAt m c x.additional m.length

/-! ## One meaning -/

theorem label_length {m : Bytes} {p : ℕ} {l : Bytes} (hl : l.length ≤ 63)
    (h : At m p (.ofNat l.length :: l)) {b : UInt8} (hb : m[p]? = some b) :
    b.toNat = l.length := by
  rw [(at_cons.1 h).1] at hb
  cases hb
  rw [UInt8.toNat_ofNat']
  omega

theorem nameAt_unique {m : Bytes} {lim p q q' : ℕ} {ls ls' : List Bytes}
    (h : NameAt m lim p ls q) (h' : NameAt m lim p ls' q') : ls = ls' ∧ q = q' := by
  induction h generalizing ls' q' with
  | root h0 =>
    cases h' with
    | root => exact ⟨rfl, rfl⟩
    | label hpos hle hat _ =>
      have := label_length hle hat h0
      exact absurd this hpos.ne
    | pointer hat hb =>
      rw [(at_cons.1 hat).1] at h0
      cases h0
      exact absurd hb (by decide)
  | label hpos hle hat _ ih =>
    cases h' with
    | root h0 =>
      have := label_length hle hat h0
      exact absurd this hpos.ne
    | label _ hle' hat' hrest =>
      have hlen := (label_length hle hat (at_cons.1 hat).1).symm.trans
        (label_length hle' hat' (at_cons.1 hat).1)
      obtain rfl := (at_cons.1 hat).2.eq (at_cons.1 hat').2 hlen
      obtain ⟨rfl, rfl⟩ := ih hrest
      exact ⟨rfl, rfl⟩
    | pointer hat' hb =>
      have := label_length hle hat (at_cons.1 hat').1
      have := UInt8.le_iff_toNat_le.1 hb
      rw [show (0xC0 : UInt8).toNat = 192 from rfl] at this
      omega
  | pointer hat hb ht _ _ _ ih =>
    cases h' with
    | root h0 =>
      rw [(at_cons.1 hat).1] at h0
      cases h0
      exact absurd hb (by decide)
    | label _ hle' hat' _ =>
      have := label_length hle' hat' (at_cons.1 hat).1
      have := UInt8.le_iff_toNat_le.1 hb
      rw [show (0xC0 : UInt8).toNat = 192 from rfl] at this
      omega
    | pointer hat' _ ht' _ _ hrest =>
      have hbc := hat.eq hat' rfl
      cases hbc
      subst ht ht'
      exact ⟨(ih hrest).1, rfl⟩

/-- A format with one reading. -/
def Functional {α : Type} (F : Format α) : Prop :=
  ∀ m p x q x' q', F m p x q → F m p x' q' → x = x' ∧ q = q'

theorem functional_question : Functional QuestionAt := by
  rintro m p ⟨n, t, c⟩ q ⟨n', t', c'⟩ q' ⟨e, hn, hat, rfl⟩ ⟨e', hn', hat', rfl⟩
  obtain ⟨rfl, rfl⟩ : n = n' ∧ e = e' := nameAt_unique hn hn'
  obtain ⟨h1, h2⟩ := List.append_inj (hat.eq hat' rfl) rfl
  obtain rfl : t = t' := put16_inj h1
  obtain rfl : c = c' := put16_inj h2
  exact ⟨rfl, rfl⟩

theorem functional_record : Functional RecordAt := by
  rintro m p ⟨n, t, c, l, d⟩ q ⟨n', t', c', l', d'⟩ q' ⟨e, hn, hd, hat, rfl⟩ ⟨e', hn', hd', hat', rfl⟩
  obtain ⟨rfl, rfl⟩ : n = n' ∧ e = e' := nameAt_unique hn hn'
  obtain ⟨hf, hr⟩ := at_append.1 hat
  obtain ⟨hf', hr'⟩ := at_append.1 hat'
  obtain ⟨h123, h4⟩ := List.append_inj' (hf.eq hf' rfl) rfl
  obtain ⟨h12, h3⟩ := List.append_inj' h123 rfl
  obtain ⟨h1, h2⟩ := List.append_inj' h12 rfl
  have hlen : d.length = d'.length := by
    have := congrArg UInt16.toNat (put16_inj h4)
    simp only [UInt16.toNat_ofNat'] at this
    dsimp only at hd hd'
    omega
  obtain rfl : d = d' := hr.eq hr' hlen
  obtain rfl : t = t' := put16_inj h1
  obtain rfl : c = c' := put16_inj h2
  obtain rfl : l = l' := put32_inj h3
  exact ⟨rfl, rfl⟩

theorem Functional.many {α : Type} {F : Format α} (hF : Functional F) {m : Bytes} {p q q' : ℕ}
    {xs ys : List α} (h : Many F m p xs q) (h' : Many F m p ys q') (hl : xs.length = ys.length) :
    xs = ys ∧ q = q' := by
  induction h generalizing ys with
  | nil =>
    obtain rfl := List.length_eq_zero_iff.1 hl.symm
    cases h'
    exact ⟨rfl, rfl⟩
  | cons hx _ ih =>
    cases h' with
    | nil => cases hl
    | cons hy hys =>
      obtain ⟨rfl, rfl⟩ := hF _ _ _ _ _ _ hx hy
      obtain ⟨rfl, rfl⟩ := ih hys (Nat.succ.inj hl)
      exact ⟨rfl, rfl⟩

theorem count_inj {n n' : ℕ} (hn : n < 65536) (hn' : n' < 65536)
    (h : put16 (.ofNat n) = put16 (.ofNat n')) : n = n' := by
  have := congrArg UInt16.toNat (put16_inj h)
  simp only [UInt16.toNat_ofNat'] at this
  omega

/-- **Octets are one message at most.** -/
theorem wire_unique {m : Bytes} {x y : Message} (hx : Wire m x) (hy : Wire m y) : x = y := by
  obtain ⟨hh, h1, h2, h3, h4, a, b, c, hq, ha, hn, hd⟩ := hx
  obtain ⟨hh', h1', h2', h3', h4', a', b', c', hq', ha', hn', hd'⟩ := hy
  obtain ⟨e5, e6⟩ := List.append_inj' (hh.eq hh' rfl) rfl
  obtain ⟨e4, e5⟩ := List.append_inj' e5 rfl
  obtain ⟨e3, e4⟩ := List.append_inj' e4 rfl
  obtain ⟨e2, e3⟩ := List.append_inj' e3 rfl
  obtain ⟨e1, e2⟩ := List.append_inj' e2 rfl
  obtain ⟨eq, rfl⟩ := functional_question.many hq hq' (count_inj h1 h1' e3)
  obtain ⟨ea, rfl⟩ := functional_record.many ha ha' (count_inj h2 h2' e4)
  obtain ⟨en, rfl⟩ := functional_record.many hn hn' (count_inj h3 h3' e5)
  obtain ⟨ed, -⟩ := functional_record.many hd hd' (count_inj h4 h4' e6)
  cases x
  cases y
  simp only [Message.mk.injEq]
  exact ⟨put16_inj e1, put16_inj e2, eq, ea, en, ed⟩

/-! ## Another header, more octets -/

theorem NameAt.lt {m : Bytes} {lim p q : ℕ} {ls : List Bytes} (h : NameAt m lim p ls q) :
    p < q := by
  induction h with
  | root | pointer => omega
  | label => omega

theorem Many.mono {α : Type} {F : Format α} {m m' : Bytes}
    (hF : ∀ {p x q}, F m p x q → 12 ≤ p → F m' p x q ∧ 12 ≤ q) {p q : ℕ} {xs : List α}
    (h : Many F m p xs q) (hp : 12 ≤ p) : Many F m' p xs q ∧ 12 ≤ q := by
  induction h with
  | nil => exact ⟨.nil, hp⟩
  | cons hx _ ih =>
    obtain ⟨h1, h2⟩ := hF hx hp
    obtain ⟨h3, h4⟩ := ih h2
    exact ⟨.cons h1 h3, h4⟩

section
variable {m m' : Bytes} (hm : m.drop 12 <+: m'.drop 12)
include hm

theorem NameAt.mono {lim p q : ℕ} {ls : List Bytes} (h : NameAt m lim p ls q) (hp : 12 ≤ p) :
    NameAt m' lim p ls q := by
  induction h with
  | root h0 => exact .root (at_cons.1 ((at_cons.2 ⟨h0, at_nil _ _⟩).mono hp hm)).1
  | label hpos hle hat _ ih => exact .label hpos hle (hat.mono hp hm) (ih (by omega))
  | pointer hat hb ht h12 hlim _ ih => exact .pointer (hat.mono hp hm) hb ht h12 hlim (ih h12)

theorem QuestionAt.mono {p q : ℕ} {x : Question} (h : QuestionAt m p x q) (hp : 12 ≤ p) :
    QuestionAt m' p x q ∧ 12 ≤ q := by
  obtain ⟨n, hn, hat, rfl⟩ := h
  have := hn.lt
  exact ⟨⟨n, hn.mono hm hp, hat.mono (by omega) hm, rfl⟩, by omega⟩

theorem RecordAt.mono {p q : ℕ} {x : Record} (h : RecordAt m p x q) (hp : 12 ≤ p) :
    RecordAt m' p x q ∧ 12 ≤ q := by
  obtain ⟨n, hn, hd, hat, rfl⟩ := h
  have := hn.lt
  exact ⟨⟨n, hn.mono hm hp, hd, hat.mono (by omega) hm, rfl⟩, by omega⟩

end

theorem Many.append {α : Type} {F : Format α} {m : Bytes} {p q r : ℕ} {xs ys : List α}
    (h : Many F m p xs q) (h' : Many F m q ys r) : Many F m p (xs ++ ys) r := by
  induction h with
  | nil => exact h'
  | cons hx _ ih => exact .cons hx (ih h')

theorem Many.split {α : Type} {F : Format α} {m : Bytes} {p q : ℕ} {xs : List α}
    (h : Many F m p xs q) (n : ℕ) : ∃ r, Many F m p (xs.take n) r ∧ Many F m r (xs.drop n) q := by
  induction h generalizing n with
  | nil => exact ⟨_, by rw [List.take_nil]; exact .nil, by rw [List.drop_nil]; exact .nil⟩
  | cons hx hxs ih =>
    cases n with
    | zero => exact ⟨_, .nil, .cons hx hxs⟩
    | succ n =>
      obtain ⟨r, h1, h2⟩ := ih n
      exact ⟨r, .cons hx h1, h2⟩

end Dns
