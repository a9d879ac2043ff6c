import MyCloud.Wsdd.Netlink

/-!
# The daemon starts again for new and lost addresses

* `attrLoop_packed`: what the loop over the attributes makes of attributes of the wire format.
* `msgLoop_packed`: what the loop over the messages makes of messages of the wire format.
* `netlink_refines`: which datagrams of the kernel start the daemon again, whatever the stack held.
-/

set_option autoImplicit false

namespace Wsdd

open Shell Netlink
open Dns (At at_cons at_append)

/-! ## Reading -/

variable {buf : Bytes} {p : ℕ}

theorem rd_at {b : UInt8} {l : Bytes} (h : At buf p (b :: l)) : rd buf p = .ok b := by
  rw [rd, (at_cons.1 h).1]

/-- The number that four octets are. -/
def word (a b c d : UInt8) : ℕ := a.toNat + 256 * b.toNat + 65536 * (c.toNat + 256 * d.toNat)

theorem word_inj {a b c d a' b' c' d' : UInt8} :
    word a b c d = word a' b' c' d' ↔ [a, b, c, d] = [a', b', c', d'] := by
  have ha := a.toNat_lt
  have hb := b.toNat_lt
  have hc := c.toNat_lt
  have ha' := a'.toNat_lt
  have hb' := b'.toNat_lt
  have hc' := c'.toNat_lt
  simp only [word, List.cons.injEq, and_true, ← UInt8.toNat_inj]
  omega

theorem rd16_at {a b : UInt8} {l : Bytes} (h : At buf p (a :: b :: l)) :
    rd16 buf p = .ok (a.toNat + 256 * b.toNat) := by
  rw [rd16, rd_at h, rd_at (at_cons.1 h).2]
  rfl

theorem rd32_at {a b c d : UInt8} {l : Bytes} (h : At buf p (a :: b :: c :: d :: l)) :
    rd32 buf p = .ok (word a b c d) := by
  rw [rd32, rd16_at h, rd16_at (at_cons.1 (at_cons.1 h).2).2]
  rfl

theorem rd16_le16 {n : ℕ} (hn : n < 65536) {l : Bytes} (h : At buf p (le16 n ++ l)) :
    rd16 buf p = .ok n := by
  rw [rd16_at h, UInt8.toNat_ofNat', UInt8.toNat_ofNat']
  congr 1
  omega

theorem rd32_le32 {n : ℕ} (hn : n < 4294967296) {l : Bytes} (h : At buf p (le32 n ++ l)) :
    rd32 buf p = .ok n := by
  rw [rd32_at h, word]
  simp only [UInt8.toNat_ofNat']
  congr 1
  omega

/-- Four octets as a number. -/
theorem rd32_four {l : Bytes} (hl : l.length = 4) (h : At buf p l) :
    ∃ a b c d, l = [a, b, c, d] ∧ rd32 buf p = .ok (word a b c d) := by
  match l, hl with
  | [a, b, c, d], _ => exact ⟨a, b, c, d, rfl, rd32_at h⟩

/-! ## Attributes -/

theorem at_drop {l : Bytes} (h : At buf p l) (i : ℕ) (hi : i ≤ l.length) :
    At buf (p + i) (l.drop i) := by
  rw [← List.take_append_drop i l, at_append, List.length_take, Nat.min_eq_left hi] at h
  exact h.2

theorem at_front {l m : Bytes} (h : At buf p l) (hm : m <+: l) : At buf p m := hm.trans h

theorem restamped_at {a : Attr} {l : Bytes} (h : a.Wire l) (hlen : 16 ≤ a.data.length)
    (hat : At buf p l) : restamped buf p = .ok (decide (a.stamps.1 ≠ a.stamps.2)) := by
  obtain ⟨-, -, rfl⟩ := h
  have hdata : At buf (p + 4) a.data := (at_append.1 hat).2
  have h1 : At buf (p + 12) a.stamps.1 :=
    at_front (at_drop hdata 8 (by omega)) (List.take_prefix _ _)
  have h2 : At buf (p + 16) a.stamps.2 :=
    at_front (at_drop hdata 12 (by omega)) (List.take_prefix _ _)
  have hl1 : a.stamps.1.length = 4 := by
    rw [Attr.stamps, List.length_take, List.length_drop]
    omega
  have hl2 : a.stamps.2.length = 4 := by
    rw [Attr.stamps, List.length_take, List.length_drop]
    omega
  obtain ⟨a1, b1, c1, d1, e1, r1⟩ := rd32_four hl1 h1
  obtain ⟨a2, b2, c2, d2, e2, r2⟩ := rd32_four hl2 h2
  rw [restamped, r1, r2, e1, e2]
  simp only [bind, Except.bind, pure, Except.pure, ne_eq, word_inj]

/-- One attribute. -/
theorem attrLoop_step {a : Attr} {l gap : Bytes} (h : a.Wire l)
    (hstamps : a.type = CACHEINFO → 16 ≤ a.data.length) (hat : At buf p l)
    (hgap : gap.length = align l.length - l.length) (n : ℕ)
    (hn : l.length + gap.length + n < 4294967296) :
    attrLoop buf p (l.length + gap.length + n) =
      if a.type = CACHEINFO ∧ a.stamps.1 ≠ a.stamps.2 then .ok false
      else attrLoop buf (p + (l.length + gap.length)) n := by
  have hsize := h.length_eq
  obtain ⟨htype, hlong, hl⟩ := h
  have hle := le_align l.length
  have hlen : rd16 buf p = .ok (4 + a.data.length) := by
    rw [hl, List.append_assoc] at hat
    exact rd16_le16 hlong hat
  have hty : rd16 buf (p + 2) = .ok a.type := by
    rw [hl, List.append_assoc] at hat
    exact rd16_le16 htype (at_append.1 hat).2
  rw [Attr.size] at hsize
  rw [attrLoop, if_neg (by omega)]
  split
  · rename_i h0
    rw [hlen] at h0
    cases h0
  · rename_i k h0
    rw [hlen] at h0
    cases h0
    rw [dif_neg (by omega), hty, ← hsize]
    have hnext : (l.length + gap.length + n + 4294967296 - align l.length) % 4294967296 = n := by
      omega
    have hpos : p + align l.length = p + (l.length + gap.length) := by omega
    rw [hnext, hpos]
    by_cases hc : a.type = CACHEINFO
    · have hre := restamped_at ⟨htype, hlong, hl⟩ (hstamps hc) hat
      by_cases hs : a.stamps.1 ≠ a.stamps.2
      · rw [if_pos ⟨hc, hs⟩]
        simp only [bind, Except.bind, if_pos hc, hre, decide_eq_true hs, pure, Except.pure, if_true]
      · rw [if_neg fun h => hs h.2]
        simp only [bind, Except.bind, if_pos hc, hre, decide_eq_false hs, Bool.false_eq_true,
          if_false]
    · rw [if_neg fun h => hc h.1]
      simp only [bind, Except.bind, if_neg hc, pure, Except.pure, Bool.false_eq_true, if_false]

theorem attrLoop_packed {attrs : List Attr} {d : Bytes} (h : Packed Attr.Wire attrs d)
    (hstamps : ∀ a ∈ attrs, a.type = CACHEINFO → 16 ≤ a.data.length) (hd : d.length < 4294967296)
    (hat : At buf p d) : attrLoop buf p d.length =
      .ok (decide (∀ a ∈ attrs, a.type = CACHEINFO → a.stamps.1 = a.stamps.2)) := by
  induction h generalizing p with
  | nil =>
    rw [attrLoop, if_pos (by decide)]
    rfl
  | @cons a as l gap d ha hgap _ ih =>
    rw [List.append_assoc] at hat
    obtain ⟨hl, hat⟩ := at_append.1 hat
    obtain ⟨-, hat⟩ := at_append.1 hat
    rw [List.length_append, List.length_append] at hd ⊢
    rw [attrLoop_step ha (hstamps a List.mem_cons_self) hl hgap _ hd]
    have hrest := ih (fun b hb => hstamps b (List.mem_cons_of_mem _ hb)) (by omega)
      (Nat.add_assoc p _ _ ▸ hat)
    simp only [List.forall_mem_cons]
    split
    · rename_i hc
      rw [decide_eq_false fun h => hc.2 (h.1 hc.1)]
    · rename_i hc
      rw [hrest]
      have hcur : a.type = CACHEINFO → a.stamps.1 = a.stamps.2 := fun h1 => by
        by_contra h2
        exact hc ⟨h1, h2⟩
      simp only [and_iff_right hcur]

/-! ## Messages -/

/-- The length and the type of a message, also if it is cut off behind its header. -/
theorem header_at {type : ℕ} {info payload : Bytes} (htype : type < 65536)
    (hlen : 16 + payload.length < 4294967296) (hinfo : info.length = 10) {m : Bytes}
    (hm : 16 ≤ m.length) (hpre : m <+: header type info payload ∨ header type info payload <+: m)
    (hat : At buf p m) : rd32 buf p = .ok (16 + payload.length) ∧ rd16 buf (p + 4) = .ok type := by
  have hhead : le32 (16 + payload.length) ++ (le16 type ++ info) <+: m := by
    have hfull : le32 (16 + payload.length) ++ (le16 type ++ info) <+: header type info payload :=
      ⟨payload, by simp only [header, List.append_assoc]⟩
    have hsize : (le32 (16 + payload.length) ++ (le16 type ++ info)).length ≤ m.length := by
      simp only [List.length_append, length_le32, length_le16, hinfo]
      omega
    rcases hpre with h | h
    · exact List.prefix_of_prefix_length_le hfull h hsize
    · exact hfull.trans h
  have hat := at_front hat hhead
  exact ⟨rd32_le32 hlen hat, rd16_le16 htype (at_append.1 hat).2⟩

/-- What `is_new_addr` says of a message that lies whole in the buffer. -/
theorem is_new_addr_at {m : Message} {l : Bytes} (h : m.Wire l) (hat : At buf p l) :
    is_new_addr buf p l.length m.type = .ok (decide (m.type = NEWADDR ∧ m.Changes)) := by
  cases h with
  | @newAddr ifa info d attrs hifa hinfo hd hstamps hlen =>
    have hl : (header NEWADDR info (ifa ++ d)).length = 24 + d.length := by
      rw [length_header _ hinfo, List.length_append, hifa]
      omega
    have harea : At buf (p + 24) d := by
      have hall := at_append.1 (show At buf p ((le32 (16 + (ifa ++ d).length) ++ le16 NEWADDR ++
        info ++ ifa) ++ d) by simpa only [header, List.append_assoc] using hat)
      have hpos : (le32 (16 + (ifa ++ d).length) ++ le16 NEWADDR ++ info ++ ifa).length = 24 := by
        simp only [List.length_append, length_le32, length_le16, hinfo, hifa]
      exact hpos ▸ hall.2
    have hsize : (24 + d.length + 4294967296 - 24) % 4294967296 = d.length := by omega
    rw [is_new_addr, Message.type, if_neg (not_not.2 rfl), hl, hsize,
      attrLoop_packed hd hstamps (by omega) harea]
    simp only [Message.Changes, true_and]
  | other _ hne _ _ =>
    rw [is_new_addr, Message.type, if_pos hne, decide_eq_false fun h => hne h.1]

/-- The header of a message that lies whole in the buffer. -/
theorem wire_header_at {m : Message} {l : Bytes} (h : m.Wire l) {t : Bytes} (ht : 16 ≤ t.length)
    (hpre : t <+: l ∨ l <+: t) (hat : At buf p t) :
    rd32 buf p = .ok l.length ∧ rd16 buf (p + 4) = .ok m.type := by
  cases h with
  | newAddr hifa hinfo _ _ hlen =>
    rw [length_header _ hinfo]
    exact header_at (show NEWADDR < 65536 by decide) (by rw [List.length_append, hifa]; omega)
      hinfo ht hpre hat
  | other htype _ hinfo hlen =>
    rw [length_header _ hinfo]
    exact header_at htype hlen hinfo ht hpre hat

theorem size_pos {m : Message} {l : Bytes} (h : m.Wire l) : 16 ≤ l.length := by
  rw [h.length_eq]
  cases m <;> simp only [Message.size] <;> omega

/-- One message that lies whole in the buffer. -/
theorem msgLoop_step {m : Message} {l gap : Bytes} (h : m.Wire l) (hat : At buf p l)
    (hgap : gap.length = align l.length - l.length) (n : ℕ) :
    msgLoop buf p (l.length + gap.length + n) =
      if m.type = DONE then .ok false else if m.Changes then .ok true
      else msgLoop buf (p + (l.length + gap.length)) n := by
  have h16 := size_pos h
  have hle := le_align l.length
  obtain ⟨hlen, htype⟩ := wire_header_at h h16 (.inl List.prefix_rfl) hat
  have hpos : p + align l.length = p + (l.length + gap.length) := by omega
  have hrest : l.length + gap.length + n - align l.length = n := by omega
  rw [msgLoop, dif_neg (by omega), hlen]
  simp only [bind, Except.bind]
  rw [dif_neg (by omega), htype, hpos, hrest]
  simp only
  by_cases hdone : m.type = DONE
  · rw [if_pos hdone, if_pos hdone]
    rfl
  rw [if_neg hdone, if_neg hdone, is_new_addr_at h hat]
  by_cases hnew : m.type = NEWADDR
  · by_cases hch : m.Changes
    · rw [decide_eq_true ⟨hnew, hch⟩, if_pos hch]
      rfl
    · have hdel : m.type ≠ DELADDR := by
        rw [hnew]
        decide
      rw [decide_eq_false fun h => hch h.2, if_neg hch]
      simp only [Bool.false_eq_true, if_false, if_neg hdel]
  · have hdel : m.Changes ↔ m.type = DELADDR := by
      cases m with
      | newAddr ifa attrs => exact absurd rfl hnew
      | other type payload => exact Iff.rfl
    rw [decide_eq_false fun h => hnew h.1]
    simp only [Bool.false_eq_true, if_false, hdel, pure, Except.pure]

/-- The messages before the end of a dump. -/
def noted (ms : List Message) : List Message := ms.takeWhile fun m => m.type ≠ DONE

theorem noted_cons (m : Message) (ms : List Message) : (∃ m' ∈ noted (m :: ms), m'.Changes) ↔
    m.type ≠ DONE ∧ (m.Changes ∨ ∃ m' ∈ noted ms, m'.Changes) := by
  unfold noted
  by_cases h : m.type = DONE
  · rw [List.takeWhile_cons_of_neg (by simpa using h)]
    simp [h]
  · rw [List.takeWhile_cons_of_pos (by simpa using h)]
    simp [h]

theorem msgLoop_packed {ms : List Message} {d : Bytes} (h : Packed Message.Wire ms d) {n : ℕ}
    (hn : n ≤ d.length) (h4 : 4 ∣ n) (hat : At buf p (d.take n)) :
    msgLoop buf p n = .ok (decide (∃ m ∈ noted (fitting n ms), m.Changes)) := by
  induction h generalizing p n with
  | nil =>
    rw [msgLoop, dif_pos (by rw [List.length_nil] at hn; omega)]
    rfl
  | @cons m ms l gap d hm hgap _ ih =>
    have hle := le_align l.length
    have hfit := align_le_iff (n := l.length) h4
    have h16 := size_pos hm
    rw [List.length_append, List.length_append] at hn
    rw [fitting, ← hm.length_eq]
    by_cases hcut : n < l.length
    · -- the message is cut off, before its header ends or behind it
      rw [msgLoop, if_neg (by omega)]
      by_cases hlt : n < 16
      · rw [dif_pos hlt]
        rfl
      · have hpre : (l ++ gap ++ d).take n <+: l := by
          rw [List.append_assoc, List.take_append_of_le_length hcut.le]
          exact List.take_prefix _ _
        have htake : 16 ≤ ((l ++ gap ++ d).take n).length := by
          simp only [List.length_take, List.length_append]
          omega
        rw [dif_neg hlt, (wire_header_at hm htake (.inl hpre) hat).1]
        simp only [bind, Except.bind]
        rw [dif_pos (.inr hcut)]
        rfl
    · have htake : (l ++ gap ++ d).take n = l ++ (gap ++ d.take (n - align l.length)) := by
        rw [List.append_assoc, List.take_append, List.take_of_length_le (by omega),
          List.take_append, List.take_of_length_le (by omega)]
        congr 3
        omega
      obtain ⟨hl, hat⟩ := at_append.1 (htake ▸ hat)
      obtain ⟨-, hat⟩ := at_append.1 hat
      have hsplit : n = l.length + gap.length + (n - align l.length) := by omega
      have hrest := ih (n := n - align l.length) (by omega) (Nat.dvd_sub h4 (align_dvd _))
        (Nat.add_assoc p _ _ ▸ hat)
      rw [if_pos (by omega), hsplit, msgLoop_step hm hl hgap, ← hsplit, hrest]
      simp only [noted_cons]
      by_cases hdone : m.type = DONE
      · rw [if_pos hdone, decide_eq_false fun h => h.1 hdone]
      · rw [if_neg hdone]
        by_cases hch : m.Changes
        · rw [if_pos hch, decide_eq_true ⟨hdone, .inl hch⟩]
        · rw [if_neg hch]
          simp only [ne_eq, hdone, hch, not_false_eq_true, true_and, false_or]

/-- **For a datagram of messages of the kernel, whatever the stack held: the daemon starts again
just when one of the messages that the buffer holds whole, and that no end of a dump comes before,
is about a lost address or about one that is new, not changed.** -/
theorem netlink_refines {ms : List Message} {d : Bytes} (h : Packed Message.Wire ms d)
    (hms : ms ≠ []) (stale : Bytes) : netlink_recv stale d =
      .ok (.addresses (decide (∃ m ∈ noted (fitting netlinkBuf ms), m.Changes))) := by
  have hne : d ≠ [] := by
    cases h with
    | nil => exact absurd rfl hms
    | @cons m ms l gap d hm _ _ =>
      have hl : l ≠ [] := by
        cases hm <;> exact List.cons_ne_nil _ _
      simp [hl]
  have hin : d.take netlinkBuf ≠ [] := by
    rw [ne_eq, List.take_eq_nil_iff, not_or]
    exact ⟨by decide, hne⟩
  have hlen : (d.take netlinkBuf).length = min netlinkBuf d.length := List.length_take
  have htake : d.take (min netlinkBuf d.length) = d.take netlinkBuf := List.take_eq_take_min.symm
  have h4 : 4 ∣ min netlinkBuf d.length := by
    rcases Nat.le_total netlinkBuf d.length with hle | hle
    · rw [Nat.min_eq_left hle]
      decide
    · rw [Nat.min_eq_right hle]
      exact h.dvd_length
  have hat : At (d.take netlinkBuf ++ stale.drop (d.take netlinkBuf).length) 0
      (d.take (min netlinkBuf d.length)) := by
    rw [htake]
    exact List.prefix_append _ _
  have hloop := msgLoop_packed h (Nat.min_le_right _ _) h4 hat
  rw [hlen, fitting_length h] at hloop
  rw [netlink_recv, if_neg hin, hlen, hloop]
  rfl

/-- An address that was changed, and then one that is new. -/
theorem netlink_refines_new :
    let info : Bytes := List.replicate 10 0
    let ifa : Bytes := [2, 24, 0, 0, 2, 0, 0, 0]
    let attr := fun made =>
      (⟨CACHEINFO, List.replicate 8 255 ++ [made, 0, 0, 0] ++ [9, 0, 0, 0]⟩ : Attr)
    let message := fun made => header NEWADDR info
      (ifa ++ (le16 20 ++ le16 CACHEINFO ++ (attr made).data ++ [] ++ []))
    netlink_recv [] (message 7) = .ok (.addresses false) ∧
      netlink_recv [] (message 7 ++ message 9) = .ok (.addresses true) := by
  intro info ifa attr message
  have hattr : ∀ made, (attr made).Wire (le16 20 ++ le16 CACHEINFO ++ (attr made).data) :=
    fun _ => ⟨show CACHEINFO < 65536 by decide, show 4 + 16 < 65536 by decide, rfl⟩
  have hattrs : ∀ made, Packed Attr.Wire [attr made]
      (le16 20 ++ le16 CACHEINFO ++ (attr made).data ++ [] ++ []) :=
    fun made => .cons (hattr made) (by simp [attr, align]) .nil
  have hwire : ∀ made, (Message.newAddr ifa [attr made]).Wire (message made) := fun made =>
    .newAddr rfl rfl (hattrs made) (by simp [attr]) (show 24 + 20 < 4294967296 by decide)
  have hgap : ∀ made, ([] : Bytes).length = align (message made).length - (message made).length :=
    fun made => by rw [show (message made).length = 44 from rfl]; rfl
  have h2 : Packed Message.Wire [.newAddr ifa [attr 7], .newAddr ifa [attr 9]]
      (message 7 ++ [] ++ (message 9 ++ [] ++ [])) :=
    .cons (hwire 7) (hgap 7) (.cons (hwire 9) (hgap 9) .nil)
  have h1 : Packed Message.Wire [.newAddr ifa [attr 7]] (message 7 ++ [] ++ []) :=
    .cons (hwire 7) (hgap 7) .nil
  simp only [List.append_nil] at h1 h2
  have hquiet : ¬ ∃ m ∈ noted (fitting netlinkBuf [.newAddr ifa [attr 7]]), m.Changes := by
    decide +kernel
  have hnew : ∃ m ∈ noted (fitting netlinkBuf [.newAddr ifa [attr 7], .newAddr ifa [attr 9]]),
      m.Changes := by
    decide +kernel
  rw [netlink_refines h1 (List.cons_ne_nil _ _), netlink_refines h2 (List.cons_ne_nil _ _),
    decide_eq_false hquiet, decide_eq_true hnew]
  exact ⟨rfl, rfl⟩

/-! ## A message that is too short -/

theorem rd_error {i : ℕ} (h : buf.length ≤ i) : rd buf i = .error .read := by
  rw [rd, List.getElem?_eq_none h]

theorem rd16_error {i : ℕ} (h : buf.length ≤ i + 1) : rd16 buf i = .error .read := by
  rw [rd16, rd_error h]
  cases hr : rd buf i with
  | error f =>
    unfold rd at hr
    split at hr
    · cases hr
    · cases hr
      rfl
  | ok a => rfl

/-- Octets that read as attributes of another type, up to the end of the memory. -/
theorem attrLoop_ones {r : ℕ}
    (h : ∀ i, p ≤ i → i < buf.length → buf[i]? = some 1) (hp : p ≤ buf.length + 300)
    (hr : buf.length + 600 ≤ p + r) (hr' : r < 4294967296) : attrLoop buf p r = .error .read := by
  induction hk : buf.length - p using Nat.strong_induction_on generalizing p r with
  | _ k ih =>
  have hone : ∀ i, p ≤ i → i + 1 < buf.length → rd16 buf i = .ok 257 := fun i hi hlt => by
    rw [rd16, rd, rd, h i hi (by omega), h (i + 1) (by omega) hlt]
    rfl
  rw [attrLoop, if_neg (by omega)]
  split
  · rename_i f hf
    by_cases hlt : p + 1 < buf.length
    · rw [hone p le_rfl hlt] at hf
      cases hf
    · rw [rd16_error (not_lt.1 hlt)] at hf
      cases hf
      rfl
  · rename_i n hn
    have hlt : p + 1 < buf.length := by
      by_contra hle
      rw [rd16_error (not_lt.1 hle)] at hn
      cases hn
    rw [hone p le_rfl hlt] at hn
    cases hn
    rw [dif_neg (by omega)]
    by_cases htype : p + 2 + 1 < buf.length
    · have h260 : align 257 = 260 := rfl
      have hnext : (r + 4294967296 - 260) % 4294967296 = r - 260 := by omega
      have hother : ¬ 257 = CACHEINFO := by decide
      rw [hone (p + 2) (by omega) htype, h260, hnext]
      simp only [bind, Except.bind, pure, Except.pure, if_neg hother, Bool.false_eq_true, if_false]
      exact ih (buf.length - (p + 260)) (by omega) (fun i hi => h i (by omega)) (by omega)
        (by omega) (by omega) rfl
    · rw [rd16_error (not_lt.1 htype)]
      rfl

/-- Messages that change nothing are passed over. -/
theorem msgLoop_quiet {ms : List Message} {d : Bytes} (h : Packed Message.Wire ms d)
    (hq : ∀ m ∈ ms, m.type ≠ DONE ∧ ¬ m.Changes) (hat : At buf p d) (n : ℕ) :
    msgLoop buf p (d.length + n) = msgLoop buf (p + d.length) n := by
  induction h generalizing p with
  | nil => rw [List.length_nil, Nat.zero_add, Nat.add_zero]
  | @cons m ms l gap d hm hgap _ ih =>
    rw [List.append_assoc] at hat
    obtain ⟨hl, hat⟩ := at_append.1 hat
    obtain ⟨-, hat⟩ := at_append.1 hat
    obtain ⟨hdone, hch⟩ := hq m List.mem_cons_self
    rw [List.length_append, List.length_append, Nat.add_assoc (l.length + gap.length),
      msgLoop_step hm hl hgap, if_neg hdone, if_neg hch,
      ih (fun m' hm' => hq m' (List.mem_cons_of_mem _ hm')) (Nat.add_assoc p _ _ ▸ hat),
      Nat.add_assoc p]

/-- The last message of a datagram, of a new address, but with no room for what such a message
holds: what is behind it decides. -/
theorem msgLoop_short {info payload : Bytes} (hinfo : info.length = 10) (hpay : payload.length < 8)
    (hat : At buf p (header NEWADDR info payload)) :
    msgLoop buf p (header NEWADDR info payload).length =
      attrLoop buf (p + 24) (4294967288 + payload.length) := by
  have hl := length_header NEWADDR hinfo payload
  have hle := le_align (16 + payload.length)
  obtain ⟨hlen, htype⟩ := header_at (show NEWADDR < 65536 by decide) (by omega) hinfo (by omega)
    (.inl List.prefix_rfl) hat
  have hsize : (16 + payload.length + 4294967296 - 24) % 4294967296 =
      4294967288 + payload.length := by
    omega
  have hdone : ¬ NEWADDR = DONE := by decide
  have hdel : ¬ NEWADDR = DELADDR := by decide
  have hend : msgLoop buf (p + align (16 + payload.length))
      (16 + payload.length - align (16 + payload.length)) = .ok false := by
    rw [msgLoop, dif_pos (by omega)]
  rw [hl, msgLoop, dif_neg (by omega), hlen]
  simp only [bind, Except.bind]
  rw [dif_neg (by omega), htype]
  simp only [if_neg hdone, is_new_addr, ne_eq, not_true_eq_false, if_false, hsize, if_neg hdel,
    hend]
  cases attrLoop buf (p + 24) (4294967288 + payload.length) with
  | error f => rfl
  | ok b => cases b <;> rfl

/-- **A message of a new address with no room for its address, behind messages that change nothing:
the loop over the attributes leaves the datagram, and what the stack holds there makes that the
daemon starts again, that it does not, or that memory behind the buffer is read.** -/
theorem netlink_short_address {ms : List Message} {d : Bytes} (h : Packed Message.Wire ms d)
    (hq : ∀ m ∈ ms, m.type ≠ DONE ∧ ¬ m.Changes) {info payload : Bytes} (hinfo : info.length = 10)
    (hpay : payload.length < 8) (hroom : d.length + 44 ≤ netlinkBuf) :
    let t := d ++ header NEWADDR info payload
    netlink_recv [] t = .error .read ∧
      ∀ r ∈ [.ok (.addresses true), .ok (.addresses false), .error .read],
        ∃ stale, stale.length = netlinkBuf ∧ netlink_recv stale t = r := by
  intro t
  have hl := length_header NEWADDR hinfo payload
  have htl : t.length = d.length + (16 + payload.length) := by rw [List.length_append, hl]
  have hbuf : netlinkBuf = 4096 := rfl
  have hin : t.take netlinkBuf = t := List.take_of_length_le (by omega)
  have hne : t ≠ [] := List.ne_nil_of_length_pos (by omega)
  have hrecv : ∀ stale, netlink_recv stale t =
      (attrLoop (t ++ stale.drop t.length) (d.length + 24) (4294967288 + payload.length)).map
        .addresses := fun stale => by
    have hat : At (t ++ stale.drop t.length) 0 t := List.prefix_append _ _
    rw [netlink_recv, hin, if_neg hne]
    generalize t ++ stale.drop t.length = buf at hat ⊢
    obtain ⟨hd, hlast⟩ := at_append.1 hat
    have hlen : t.length = d.length + (header NEWADDR info payload).length := List.length_append
    rw [hlen, msgLoop_quiet h hq hd, msgLoop_short hinfo hpay hlast, Nat.zero_add]
  have hstale : ∀ tail : Bytes, d.length + 24 + tail.length = netlinkBuf → ∃ stale buf,
      stale.length = netlinkBuf ∧ buf.length = netlinkBuf ∧ buf.drop (d.length + 24) = tail ∧
        netlink_recv stale t =
          (attrLoop buf (d.length + 24) (4294967288 + payload.length)).map .addresses := by
    intro tail htail
    refine ⟨List.replicate (d.length + 24) 0 ++ tail, _, ?_, ?_, ?_, hrecv _⟩
    · rw [List.length_append, List.length_replicate, htail]
    · simp only [List.length_append, List.length_drop, List.length_replicate]
      omega
    · rw [List.drop_append, List.drop_eq_nil_of_le (by omega), List.nil_append, List.drop_drop]
      refine List.drop_left' ?_
      rw [List.length_replicate]
      omega
  have hfill : ∀ l : Bytes, l.length ≤ 20 → d.length + 24 +
      (l ++ List.replicate (netlinkBuf - (d.length + 24) - l.length) 0).length = netlinkBuf := by
    intro l hl
    rw [List.length_append, List.length_replicate]
    omega
  refine ⟨?_, fun r hr => ?_⟩
  · rw [hrecv, attrLoop_ones (fun i hi hlt => ?_) (by simp; omega) (by simp; omega) (by omega)]
    · rfl
    · simp at hlt
      omega
  simp only [List.mem_cons, List.not_mem_nil, or_false] at hr
  rcases hr with rfl | rfl | rfl
  · -- no attribute
    obtain ⟨stale, buf, hs, -, hdrop, hr⟩ := hstale _ (hfill [0, 0] (by decide))
    have hat : At buf (d.length + 24) [0, 0] := ⟨_, hdrop.symm⟩
    refine ⟨stale, hs, hr.trans ?_⟩
    rw [attrLoop, if_neg (by omega)]
    split
    · rename_i f hf
      rw [rd16_at hat] at hf
      cases hf
    · rename_i n hn
      rw [rd16_at hat] at hn
      cases hn
      rw [dif_pos (.inl (by decide))]
      rfl
  · -- the attribute of an address that was changed
    let a : Attr := ⟨CACHEINFO, List.replicate 8 0 ++ [1, 0, 0, 0] ++ [2, 0, 0, 0]⟩
    have ha : a.Wire (le16 20 ++ le16 CACHEINFO ++ a.data) := ⟨by decide, by decide, rfl⟩
    obtain ⟨stale, buf, hs, -, hdrop, hr⟩ := hstale _ (hfill _ (show List.length (le16 20 ++
      le16 CACHEINFO ++ a.data) ≤ 20 by decide))
    have hat : At buf (d.length + 24) (le16 20 ++ le16 CACHEINFO ++ a.data) := ⟨_, hdrop.symm⟩
    have hsize : (le16 20 ++ le16 CACHEINFO ++ a.data).length + ([] : Bytes).length +
        (4294967268 + payload.length) = 4294967288 + payload.length := by
      rw [show (le16 20 ++ le16 CACHEINFO ++ a.data).length = 20 from rfl, List.length_nil]
      omega
    have hgap : ([] : Bytes).length = align (le16 20 ++ le16 CACHEINFO ++ a.data).length -
        (le16 20 ++ le16 CACHEINFO ++ a.data).length := by decide
    have hstep := attrLoop_step ha (fun _ => by decide) hat hgap (4294967268 + payload.length)
      (by omega)
    rw [hsize, if_pos (by decide)] at hstep
    refine ⟨stale, hs, hr.trans ?_⟩
    rw [hstep]
    rfl
  · -- attributes of another type, without end
    obtain ⟨stale, buf, hs, hlen, hdrop, hr⟩ :=
      hstale (List.replicate (netlinkBuf - (d.length + 24)) 1)
        (by rw [List.length_replicate]; omega)
    refine ⟨stale, hs, hr.trans ?_⟩
    rw [attrLoop_ones (fun i hi hlt => ?_) (by omega) (by omega) (by omega)]
    · rfl
    · obtain ⟨j, rfl⟩ := Nat.exists_eq_add_of_le hi
      rw [← List.getElem?_drop, hdrop, List.getElem?_replicate, if_pos (by omega)]

/-- The message of 20 octets, by itself. -/
theorem netlink_short_address_alone :
    let t := [] ++ header NEWADDR (List.replicate 10 0) [2, 24, 0, 0]
    netlink_recv [] t = .error .read ∧
      ∃ stale, stale.length = netlinkBuf ∧ netlink_recv stale t = .ok (.addresses true) := by
  intro t
  have hinfo : (List.replicate 10 (0 : UInt8)).length = 10 := List.length_replicate
  have hpay : ([2, 24, 0, 0] : Bytes).length < 8 := by decide
  have h := netlink_short_address .nil (fun _ h => absurd h List.not_mem_nil) hinfo hpay (by decide)
  exact ⟨h.1, h.2 _ List.mem_cons_self⟩

end Wsdd
