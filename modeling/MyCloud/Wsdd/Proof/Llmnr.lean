import MyCloud.Wsdd.Llmnr

/-!
# The LLMNR responder answers queries

* `labels_walk`, `exists_walk`: the loop over the labels goes as far as labels of at most 63 octets go.
* `llmnr_overflow_iff`: the datagrams that write behind `in_label`.
* `llmnr_recv_complete`: a datagram with a whole question, whatever the stack held.
* `llmnr_refines`: a message of the wire format is answered just when it asks for this host, and the
  answer is the message it should be, unless records of the query come between.
-/

set_option autoImplicit false

namespace Wsdd

open Shell Dns

/-! ## Labels -/

/-- Labels of at most 63 octets, from `p` to `q`. -/
inductive Walk (m : Bytes) : ℕ → List Bytes → ℕ → Prop
  | nil {p : ℕ} : Walk m p [] p
  | cons {p q : ℕ} {l : Bytes} {ls : List Bytes} : 0 < l.length → l.length < labelSize →
      At m p (.ofNat l.length :: l) → Walk m (p + 1 + l.length) ls q → Walk m p (l :: ls) q

/-- `in_name` after the labels. -/
def appendLabels (in_name : Option Bytes) (ls : List Bytes) : Option Bytes :=
  ls.foldl (fun n l => some (appendLabel n l)) in_name

/-- The loop comes to the end of every walk. -/
theorem labels_walk {m : Bytes} {p q : ℕ} {ls : List Bytes} (h : Walk m p ls q)
    (in_name : Option Bytes) : labels m p in_name = labels m q (appendLabels in_name ls) := by
  induction h generalizing in_name with
  | nil => rfl
  | @cons p q l ls hpos hlt hat _ ih =>
    have hn : (UInt8.ofNat l.length).toNat = l.length := by
      rw [UInt8.toNat_ofNat']
      unfold labelSize at hlt
      omega
    obtain ⟨hb, hl⟩ := at_cons.1 hat
    have hne : UInt8.ofNat l.length ≠ 0 := fun h0 => by
      rw [h0] at hn
      exact hpos.ne hn
    have hC0 : ¬ (0xC0 : UInt8) ≤ .ofNat l.length := by
      rw [UInt8.le_iff_toNat_le, hn]
      unfold labelSize at hlt
      simp only [UInt8.reduceToNat, not_le]
      omega
    have hlen := hl.le_length (List.length_pos_iff.1 hpos)
    have htake : (m.drop (p + 1)).take l.length = l := (List.prefix_iff_eq_take.1 hl).symm
    rw [labels]
    split
    · rename_i h0
      rw [hb] at h0
      cases h0
    · rename_i n h0
      rw [hb] at h0
      cases h0
      rw [if_neg hne, if_neg hC0, hn, if_neg (by omega), if_neg (by omega), htake, ih]
      rfl

/-- A query with one question and no records but additional ones. -/
def IsQuery (buf : Bytes) (inlen : ℕ) : Prop :=
  13 ≤ inlen ∧ (∃ b, buf[2]? = some b ∧ b < 2) ∧ At buf 4 [0, 1, 0, 0, 0, 0]

/-- `QR`, `OPCODE`, `C` and `TC` are zero: what remains is `T`. -/
theorem flag_bits (b : UInt8) : (b &&& 0xF8 = 0 ∧ b &&& 0x04 = 0 ∧ b &&& 0x02 = 0) ↔ b < 2 := by
  have h : ∀ n : Fin 256, (UInt8.ofNat n &&& 0xF8 = 0 ∧ UInt8.ofNat n &&& 0x04 = 0 ∧
      UInt8.ofNat n &&& 0x02 = 0) ↔ UInt8.ofNat n < 2 := by decide +kernel
  have hb := h ⟨b.toNat, b.toNat_lt⟩
  rwa [UInt8.ofNat_toNat] at hb

theorem get16_eq (a b : UInt8) (x : UInt16) : get16 a b = x ↔ put16 x = [a, b] := by
  constructor
  · rintro rfl
    exact put16_get16 a b
  · intro h
    exact (put16_inj (h.trans (put16_get16 a b).symm)).symm

/-- The header is read without a fault. -/
theorem isQuery_ok {buf : Bytes} (hl : 13 ≤ buf.length) (inlen : ℕ) :
    ∃ b, isQuery buf inlen = .ok b ∧ (b = true ↔ IsQuery buf inlen) := by
  obtain ⟨b0, b1, b2, b3, b4, b5, b6, b7, b8, b9, t, rfl⟩ : ∃ b0 b1 b2 b3 b4 b5 b6 b7 b8 b9 t,
      buf = b0 :: b1 :: b2 :: b3 :: b4 :: b5 :: b6 :: b7 :: b8 :: b9 :: t := by
    match buf, hl with
    | _ :: _ :: _ :: _ :: _ :: _ :: _ :: _ :: _ :: _ :: _, _ =>
      exact ⟨_, _, _, _, _, _, _, _, _, _, _, rfl⟩
  refine ⟨decide (13 ≤ inlen ∧ b2 < 2 ∧ [0, 1, 0, 0, 0, 0] = [b4, b5, b6, b7, b8, b9]), ?_, ?_⟩
  · unfold isQuery
    simp only [← flag_bits, bind, Except.bind, pure, Except.pure, rd, List.getElem?_cons_succ,
      List.getElem?_cons_zero, ne_eq, get16_eq]
    by_cases h1 : inlen < 13
    · rw [if_pos h1, decide_eq_false (by omega)]
    · rw [if_neg h1]
      simp [put16]
      grind
  · simp [IsQuery, At, List.prefix_cons_iff]

/-! ## What is behind the name -/

/-- The tests read the four octets behind the name. -/
theorem question_ok {buf : Bytes} {p : ℕ} {t c : UInt16} (h : At buf (p + 1) (put16 t ++ put16 c))
    (in_name : Option Bytes) (myname : Bytes) :
    ∃ o, question buf p in_name myname = .ok o ∧
      ∀ t', o = some t' ↔ t' = t ∧ (t = DNS_TYPE_A ∨ t = DNS_TYPE_AAAA) ∧ c = DNS_CLASS_IN ∧
        ∃ name, in_name = some name ∧ myname.map toLower = name.map toLower := by
  obtain ⟨ht, hc⟩ := at_append.1 h
  obtain ⟨t1, ht⟩ := at_cons.1 ht
  obtain ⟨t2, -⟩ := at_cons.1 ht
  obtain ⟨c1, hc⟩ := at_cons.1 hc
  obtain ⟨c2, -⟩ := at_cons.1 hc
  simp only [length_put16] at c1 c2
  unfold question
  simp only [rd, t1, t2, c1, c2, bind, Except.bind, pure, Except.pure, get16_put16]
  by_cases hty : t = DNS_TYPE_A ∨ t = DNS_TYPE_AAAA
  · rw [if_neg (by tauto)]
    by_cases hcls : c = DNS_CLASS_IN
    · rw [if_neg (not_not.2 hcls)]
      cases in_name with
      | none => exact ⟨_, rfl, by simp⟩
      | some name =>
        dsimp only
        by_cases hname : myname.map toLower = name.map toLower
        · rw [if_neg (not_not.2 hname)]
          exact ⟨_, rfl, by simp [hty, hcls, hname, eq_comm]⟩
        · rw [if_pos hname]
          exact ⟨_, rfl, by simp [hname]⟩
    · rw [if_pos hcls]
      exact ⟨_, rfl, by simp [hcls]⟩
  · rw [if_pos (by tauto)]
    exact ⟨_, rfl, by simp [hty]⟩

/-! ## Behind the header -/

section
variable {ifs : List Ifaddr} {sa ci : Addr} {buf : Bytes} {inlen : ℕ} (myname : Bytes)

theorem send_other (hl : 13 ≤ buf.length) (hq : connected_if ifs sa = none ∨ ¬ IsQuery buf inlen) :
    llmnr_send_response ifs sa buf inlen myname = .ok none := by
  obtain ⟨b, hb, hbq⟩ := isQuery_ok hl inlen
  unfold llmnr_send_response
  cases hci : connected_if ifs sa with
  | none => rfl
  | some ci =>
    have hfalse : b = false := by
      rcases hq with h | h
      · rw [h] at hci
        cases hci
      · exact Bool.eq_false_iff.2 fun ht => h (hbq.1 ht)
    dsimp only
    rw [hb, hfalse]
    rfl

theorem send_query (hci : connected_if ifs sa = some ci) (hl : 13 ≤ buf.length)
    (hq : IsQuery buf inlen) :
    llmnr_send_response ifs sa buf inlen myname = (labels buf 12 none).bind fun
      | none => .ok none
      | some (p, in_name) => (question buf p in_name myname).bind fun o =>
        .ok (o.map fun qtype => response (buf.take inlen) qtype ci) := by
  obtain ⟨b, hb, hbq⟩ := isQuery_ok hl inlen
  unfold llmnr_send_response
  simp only [hci, hb, hbq.2 hq, bind, Except.bind, pure, Except.pure]
  cases labels buf 12 none with
  | error e => rfl
  | ok o =>
    cases o with
    | none => rfl
    | some pn =>
      dsimp only
      cases question buf pn.1 pn.2 myname with
      | error e => rfl
      | ok o => cases o <;> rfl

end

/-! ## The overflow -/

theorem recvBuf_length {stale input : Bytes} (hs : stale.length = bufSize)
    (hi : input.length < bufSize) : (recvBuf stale input).length = bufSize := by
  unfold recvBuf
  simp only [List.length_append, List.length_cons, List.length_drop]
  omega

theorem length_input (d : Bytes) : (d.take (bufSize - 1)).length < bufSize := by
  rw [List.length_take]
  unfold bufSize
  omega

/-- A name without a pointer is walked, and the root ends the loop. -/
theorem labels_name {m : Bytes} {lim p q : ℕ} {ls : List Bytes} (h : NameAt m lim p ls q)
    (hlim : lim ≤ 12) (in_name : Option Bytes) :
    labels m p in_name = .ok (some (q - 1, appendLabels in_name ls)) := by
  induction h generalizing in_name with
  | root h0 =>
    rw [labels]
    split
    · rename_i h
      rw [h0] at h
      cases h
    · rename_i n h
      rw [h0] at h
      cases h
      rfl
  | label hpos hle hat _ ih =>
    rw [labels_walk (.cons hpos (Nat.lt_succ_of_le hle) hat .nil), ih hlim]
    rfl
  | pointer _ _ _ h12 hlt => omega

/-- What is behind the header does not depend on what follows the question. -/
theorem send_whole {ifs : List Ifaddr} {sa ci : Addr} {buf : Bytes} {inlen : ℕ} {qu : Question}
    {p : ℕ} (myname : Bytes) (hci : connected_if ifs sa = some ci) (hq : IsQuery buf inlen)
    (hqu : QuestionAt buf 12 qu p) :
    ∃ o, llmnr_send_response ifs sa buf inlen myname =
        .ok (o.map fun qtype => response (buf.take inlen) qtype ci) ∧
      ∀ t, o = some t ↔ t = qu.type ∧ (qu.type = DNS_TYPE_A ∨ qu.type = DNS_TYPE_AAAA) ∧
        qu.cls = DNS_CLASS_IN ∧
        ∃ name, appendLabels none qu.name = some name ∧ myname.map toLower = name.map toLower := by
  obtain ⟨q, hname, hat, -⟩ := hqu
  have hlt := hname.lt
  have hl : 13 ≤ buf.length := by
    have := hat.le_length (List.cons_ne_nil _ _)
    omega
  obtain ⟨o, ho, h⟩ := question_ok (p := q - 1) (by rwa [Nat.sub_add_cancel (by omega)])
    (appendLabels none qu.name) myname
  refine ⟨o, ?_, h⟩
  rw [send_query myname hci hl hq, labels_name hname le_rfl]
  change Except.bind (question buf (q - 1) _ myname) _ = _
  rw [ho]
  rfl

/-! ## The message and its answer -/

/-- The names that the message asks for in the one question it has. -/
structure Responds (myname : Bytes) (x : Message) (qu : Question) : Prop where
  flags : x.flags < 0x0200
  questions : x.questions = [qu]
  answers : x.answers = []
  authority : x.authority = []
  type : qu.type = DNS_TYPE_A ∨ qu.type = DNS_TYPE_AAAA
  cls : qu.cls = DNS_CLASS_IN
  name : ∃ name, appendLabels none qu.name = some name ∧ myname.map toLower = name.map toLower

/-- No record if the type does not go with the family of the interface. -/
def answerRecords (qu : Question) (ci : Addr) : List Record :=
  if qu.type = DNS_TYPE_A ∧ ci.family = .inet6 ∨ qu.type = DNS_TYPE_AAAA ∧ ci.family = .inet then []
  else [⟨qu.name, qu.type, DNS_CLASS_IN, 0, ci.octets⟩]

/-- The answer to the question. -/
def answerTo (x : Message) (qu : Question) (ci : Addr) : Message :=
  { x with flags := 0x8000, answers := answerRecords qu ci }

/-- What is sent: the record stands behind the additional records, and the first one is counted as the
answer. -/
def sentFor (x : Message) (qu : Question) (ci : Addr) : Message :=
  let rs := answerRecords qu ci
  { x with
    flags := 0x8000
    answers := (x.additional ++ rs).take rs.length
    additional := (x.additional ++ rs).drop rs.length }

theorem append_comm_iff {α : Type} (a : α) (xs : List α) :
    xs ++ [a] = a :: xs ↔ ∀ x ∈ xs, x = a := by
  constructor
  · intro h
    induction xs with
    | nil => exact fun x hx => absurd hx List.not_mem_nil
    | cons b xs ih =>
      injection h with hb h
      subst hb
      exact List.forall_mem_cons.2 ⟨rfl, ih h⟩
  · intro h
    rw [List.eq_replicate_of_mem h, ← List.replicate_succ', List.replicate_succ]

theorem sentFor_eq_iff (x : Message) (qu : Question) (ci : Addr) :
    sentFor x qu ci = answerTo x qu ci ↔
      ∀ r ∈ answerRecords qu ci, ∀ e ∈ x.additional, e = r := by
  unfold sentFor answerTo answerRecords
  split
  · simp
  · rw [List.forall_mem_singleton, ← append_comm_iff]
    simp only [List.length_singleton, Message.mk.injEq, true_and]
    constructor
    · rintro ⟨h1, h2⟩
      rw [← List.take_append_drop 1 (x.additional ++ _), h1, h2]
      rfl
    · intro h
      rw [h]
      exact ⟨rfl, rfl⟩

theorem isQuery_iff {buf : Bytes} {x : Message} (h : At buf 0 x.header)
    (h1 : x.questions.length < 65536) (h2 : x.answers.length < 65536)
    (h3 : x.authority.length < 65536) (inlen : ℕ) :
    IsQuery buf inlen ↔ 13 ≤ inlen ∧ x.flags < 0x0200 ∧ x.questions.length = 1 ∧ x.answers = [] ∧
      x.authority = [] := by
  unfold Message.header at h
  simp only [List.append_assoc] at h
  obtain ⟨-, h⟩ := at_append.1 h
  obtain ⟨hf, h⟩ := at_append.1 h
  rw [← List.append_assoc, ← List.append_assoc] at h
  have hc := (at_append.1 h).1
  have hflags : (∃ b, buf[2]? = some b ∧ b < 2) ↔ x.flags < 0x0200 := by
    have hb := (at_cons.1 hf).1
    rw [show 0 + (put16 x.id).length = 2 from rfl] at hb
    have hx := x.flags.toNat_lt
    rw [hb, UInt16.lt_iff_toNat_lt]
    simp only [Option.some.injEq, exists_eq_left', UInt8.lt_iff_toNat_lt, UInt8.toNat_ofNat',
      UInt8.reduceToNat, UInt16.reduceToNat]
    omega
  have hcounts : At buf 4 [0, 1, 0, 0, 0, 0] ↔
      x.questions.length = 1 ∧ x.answers = [] ∧ x.authority = [] := by
    constructor
    · intro h0
      have he : [0, 1] ++ [0, 0] ++ [0, 0] = put16 _ ++ put16 _ ++ put16 _ := h0.eq hc rfl
      obtain ⟨he, hn⟩ := List.append_inj' he rfl
      obtain ⟨hq, ha⟩ := List.append_inj' he rfl
      exact ⟨(count_inj (n := 1) (by decide) h1 hq).symm,
        List.length_eq_zero_iff.1 (count_inj (n := 0) (by decide) h2 ha).symm,
        List.length_eq_zero_iff.1 (count_inj (n := 0) (by decide) h3 hn).symm⟩
    · rintro ⟨hq, ha, hn⟩
      rw [hq, ha, hn] at hc
      exact hc
  rw [IsQuery, hflags, hcounts]

/-! ## What is sent is a message -/

/-- The header that is sent, the rest of the query, and the record. -/
theorem response_eq {d : Bytes} {x : Message} {qu : Question} (ci : Addr) (h : At d 0 x.header)
    (hq : x.questions = [qu]) (hn : x.authority = []) :
    response d qu.type ci = (sentFor x qu ci).header ++ d.drop 12 ++
      if answerRecords qu ci = [] then [] else answerSection ci := by
  obtain ⟨t, rfl⟩ := h
  have hcount : (sentFor x qu ci).additional.length = x.additional.length := by
    simp only [sentFor, List.length_drop, List.length_append]
    omega
  have hans : (sentFor x qu ci).answers.length = (answerRecords qu ci).length := by
    simp only [sentFor, List.length_take, List.length_append]
    omega
  have hdrop : (x.header ++ t).drop 12 = t := List.drop_left' x.length_header
  rw [hdrop]
  unfold response Message.header
  rw [hcount, hans]
  unfold answerRecords
  split
  · simp [sentFor, put16, hq, hn]
  · simp [sentFor, put16, hq, hn]

/-- The record that `answerSection` writes behind a message, whose name is the one at 12. -/
theorem answerSection_at {m : Bytes} {n q : ℕ} {qu : Question} {ci : Addr}
    (hsec : At m n (answerSection ci)) (hname : NameAt m 12 12 qu.name q) (hn : 12 < n)
    (hne : ¬ (qu.type = DNS_TYPE_A ∧ ci.family = .inet6 ∨
      qu.type = DNS_TYPE_AAAA ∧ ci.family = .inet))
    (ht : qu.type = DNS_TYPE_A ∨ qu.type = DNS_TYPE_AAAA) :
    RecordAt m n ⟨qu.name, qu.type, DNS_CLASS_IN, 0, ci.octets⟩
      (n + (answerSection ci).length) := by
  have hty : (if ci.family = .inet then DNS_TYPE_A else DNS_TYPE_AAAA) = qu.type := by
    cases hf : ci.family with
    | inet => exact (ht.resolve_right fun h => hne (.inr ⟨h, hf⟩)).symm
    | inet6 => exact (ht.resolve_left fun h => hne (.inl ⟨h, hf⟩)).symm
  have hlen : ci.octets.length < 65536 := by
    rw [ci.size]
    cases ci.family <;> decide
  unfold answerSection at hsec
  rw [hty] at hsec
  simp only [List.append_assoc] at hsec
  obtain ⟨hp, hrest⟩ := at_append.1 hsec
  refine ⟨n + 2, .pointer hp (by decide) rfl le_rfl hn hname, hlen, ?_, ?_⟩
  · simp only [List.append_assoc]
    exact hrest
  · simp only [answerSection, List.length_append, length_put16, length_put32, List.length_cons,
      List.length_nil]
    omega

/-- The one question lies in the message. -/
theorem wire_question {d : Bytes} {x : Message} {qu : Question} (hx : Wire d x)
    (hq : x.questions = [qu]) :
    ∃ q, NameAt d 12 12 qu.name q ∧ QuestionAt d 12 qu (q + 4) ∧ 12 < d.length := by
  obtain ⟨-, -, -, -, -, a, -, -, hqs, -⟩ := hx
  rw [hq] at hqs
  cases hqs with
  | cons hqu _ =>
    obtain ⟨q, hname, hat, -⟩ := hqu
    have := hname.lt
    have := hat.le_length (List.cons_ne_nil _ _)
    exact ⟨q, hname, ⟨q, hname, hat, rfl⟩, by omega⟩

theorem response_wire {d : Bytes} {x : Message} {qu : Question} (ci : Addr) (hx : Wire d x)
    (hq : x.questions = [qu]) (ha : x.answers = []) (hn : x.authority = [])
    (ht : qu.type = DNS_TYPE_A ∨ qu.type = DNS_TYPE_AAAA) :
    Wire (response d qu.type ci) (sentFor x qu ci) := by
  obtain ⟨q, hname, -, hlt⟩ := wire_question hx hq
  obtain ⟨hh, -, -, -, h4, a, b, c, hqs, has, hns, hds⟩ := hx
  rw [ha] at has
  rw [hn] at hns
  cases has
  cases hns
  have hr := response_eq ci hh hq hn
  have hm : d.drop 12 <+: (response d qu.type ci).drop 12 := by
    rw [hr, List.append_assoc, List.drop_left' (sentFor x qu ci).length_header]
    exact List.prefix_append _ _
  obtain ⟨hqs', h12⟩ := hqs.mono (QuestionAt.mono hm) le_rfl
  have hds' := (hds.mono (RecordAt.mono hm) h12).1
  have hlen : (response d qu.type ci).length = d.length +
      (if answerRecords qu ci = [] then [] else answerSection ci).length := by
    have := hh.le_length (List.cons_ne_nil _ _)
    rw [x.length_header] at this
    rw [hr, List.length_append, List.length_append, List.length_drop, Message.length_header]
    omega
  have hsec : answerRecords qu ci ≠ [] → At (response d qu.type ci) d.length (answerSection ci) := by
    intro hne
    rw [hr, if_neg hne, ← show ((sentFor x qu ci).header ++ d.drop 12).length = d.length by
      rw [List.length_append, List.length_drop, Message.length_header]
      omega]
    exact ⟨[], by rw [List.append_nil, List.drop_left]⟩
  have hrec : Many RecordAt (response d qu.type ci) d.length (answerRecords qu ci)
      (response d qu.type ci).length := by
    rw [hlen]
    unfold answerRecords at *
    split
    · exact .nil
    · rename_i hne
      rw [if_neg hne] at hsec
      have hat := hsec (List.cons_ne_nil _ _)
      exact .cons (answerSection_at hat (hname.mono hm le_rfl) hlt hne ht) .nil
  obtain ⟨p, hans, hadd⟩ := (hds'.append hrec).split (answerRecords qu ci).length
  have hone : (answerRecords qu ci).length ≤ 1 := by
    unfold answerRecords
    split <;> simp
  refine ⟨?_, ?_, ?_, ?_, ?_, a, p, p, hqs', hans, ?_, hadd⟩
  · rw [hr, List.append_assoc]
    exact List.prefix_append _ _
  · simp [sentFor, hq]
  · simp only [sentFor, List.length_take]
    omega
  · simp [sentFor, hn]
  · simp only [sentFor, List.length_drop, List.length_append]
    omega
  · simp only [sentFor, hn]
    exact .nil

/-- **A message of the wire format is answered just when it asks for this host, whatever the stack
held. What is sent is a message again, and it is the answer unless the query has additional records.** -/
theorem llmnr_refines {ifs : List Ifaddr} {sa ci : Addr} {d : Bytes} {x : Message}
    (hci : connected_if ifs sa = some ci) (hx : Wire d x) (hd : d.length < bufSize)
    (myname stale : Bytes) :
    ∃ o, llmnr_recv ifs myname stale sa d = .ok o ∧
      (o = none ↔ ¬ ∃ qu, Responds myname x qu) ∧
      ∀ r, o = some r → ∃ qu, Responds myname x qu ∧ Wire r (sentFor x qu ci) ∧
        (Wire r (answerTo x qu ci) ↔ ∀ a ∈ answerRecords qu ci, ∀ e ∈ x.additional, e = a) := by
  have hh := hx.1
  have h12 := hh.le_length (List.cons_ne_nil _ _)
  rw [x.length_header] at h12
  have htake : d.take (bufSize - 1) = d := List.take_of_length_le (Nat.le_pred_of_lt hd)
  have hpre : d <+: recvBuf stale d := List.prefix_append _ _
  have hbuf : 13 ≤ (recvBuf stale d).length := by
    simp only [recvBuf, List.length_append, List.length_cons]
    omega
  have hquery := isQuery_iff (hh.mono (k := 0) le_rfl hpre) hx.2.1 hx.2.2.1 hx.2.2.2.1 d.length
  unfold llmnr_recv
  dsimp only
  rw [htake, if_neg (fun h => by rw [h] at h12; exact absurd h12 (by decide))]
  by_cases hq : IsQuery (recvBuf stale d) d.length
  · obtain ⟨-, hflags, hone, ha, hn⟩ := hquery.1 hq
    obtain ⟨qu, hqu⟩ := List.length_eq_one_iff.1 hone
    obtain ⟨q, -, hat, -⟩ := wire_question hx hqu
    obtain ⟨o, ho, hiff⟩ := send_whole myname hci hq (hat.mono (hpre.drop 12) le_rfl).1
    rw [ho, show (recvBuf stale d).take d.length = d from List.take_left]
    have hresp : ∀ t, o = some t ↔ t = qu.type ∧ Responds myname x qu := by
      intro t
      rw [hiff]
      exact ⟨fun ⟨h1, h2, h3, h4⟩ => ⟨h1, hflags, hqu, ha, hn, h2, h3, h4⟩,
        fun ⟨h1, h⟩ => ⟨h1, h.type, h.cls, h.name⟩⟩
    refine ⟨_, rfl, ?_, ?_⟩
    · rw [Option.map_eq_none_iff, Option.eq_none_iff_forall_ne_some]
      constructor
      · rintro h ⟨qu', h'⟩
        obtain rfl : qu' = qu := by
          have := h'.questions
          rw [hqu] at this
          exact (List.singleton_inj.1 this).symm
        exact h _ ((hresp _).2 ⟨rfl, h'⟩)
      · exact fun h t ht => h ⟨qu, ((hresp t).1 ht).2⟩
    · intro r hr
      obtain ⟨t, ht, rfl⟩ := Option.map_eq_some_iff.1 hr
      obtain ⟨rfl, h⟩ := (hresp t).1 ht
      have hw := response_wire ci hx hqu ha hn h.type
      refine ⟨qu, h, hw, ?_⟩
      rw [← sentFor_eq_iff]
      exact ⟨fun h' => wire_unique hw h', fun h' => h' ▸ hw⟩
  · rw [send_other myname hbuf (.inr hq)]
    refine ⟨none, rfl, iff_of_true rfl ?_, fun r h => by cases h⟩
    rintro ⟨qu, h⟩
    obtain ⟨-, -, -, hlt⟩ := wire_question hx h.questions
    exact hq (hquery.2 ⟨hlt, h.flags, by rw [h.questions]; rfl, h.answers, h.authority⟩)

/-- A query for `nas` with an empty record of the type `OPT`: the record of the address is not the
answer of what is sent. -/
theorem llmnr_additional_first :
    let d : Bytes := [0, 7, 0, 0, 0, 1, 0, 0, 0, 0, 0, 1, 3] ++ bytes "nas" ++
      [0, 0, 1, 0, 1, 0, 0, 41, 4, 176, 0, 0, 0, 0, 0, 0]
    let qu : Question := ⟨[bytes "nas"], DNS_TYPE_A, DNS_CLASS_IN⟩
    let x : Message := ⟨7, 0, [qu], [], [], [⟨[], 41, 1200, 0, []⟩]⟩
    let ci : Addr := ⟨.inet, [192, 168, 1, 5], rfl⟩
    ∃ r, llmnr_recv [⟨bytes "eth0", some ci, [255, 255, 255, 0], false, true⟩] (bytes "NAS") []
        ⟨.inet, [192, 168, 1, 9], rfl⟩ d = .ok (some r) ∧ ¬ Wire r (answerTo x qu ci) := by
  intro d qu x ci
  have hci : connected_if [⟨bytes "eth0", some ci, [255, 255, 255, 0], false, true⟩]
      ⟨.inet, [192, 168, 1, 9], rfl⟩ = some ci := rfl
  have hx : Wire d x := by
    refine ⟨by decide, by decide, by decide, by decide, by decide, 21, 21, 21, ?_, .nil, .nil, ?_⟩
    · exact .cons ⟨17, .label (by decide) (by decide) (by decide) (.root rfl), by decide, rfl⟩ .nil
    · exact .cons ⟨22, .root rfl, by decide, by decide, rfl⟩ .nil
  have hresp : Responds (bytes "NAS") x qu :=
    ⟨by decide, rfl, rfl, rfl, .inl rfl, rfl, _, rfl, by decide⟩
  obtain ⟨o, ho, hnone, hsome⟩ := llmnr_refines hci hx (by decide) (bytes "NAS") []
  obtain ⟨r, rfl⟩ := Option.ne_none_iff_exists'.1 fun h => hnone.1 h ⟨qu, hresp⟩
  obtain ⟨qu', hresp', -, hiff⟩ := hsome r rfl
  obtain rfl : qu' = qu := List.singleton_inj.1 hresp'.questions.symm
  refine ⟨r, ho, fun hw => ?_⟩
  have := hiff.1 hw ⟨[bytes "nas"], DNS_TYPE_A, DNS_CLASS_IN, 0, ci.octets⟩ (by decide) _
    (List.mem_singleton.2 rfl)
  exact absurd this (by decide)

/-! ## Answers are not answered -/

theorem response_flags {input : Bytes} (h : 13 ≤ input.length) (qtype : UInt16) (ci : Addr) :
    (response input qtype ci)[2]? = some 0x80 ∧ (response input qtype ci)[3]? = some 0x00 := by
  have hset : ∀ i, i < 4 → ∀ c, ((((input.set 2 0x80).set 3 0x00).set 6 0x00).set 7 c)[i]? =
      ((input.set 2 0x80).set 3 0x00)[i]? := by
    intro i hi c
    rw [List.getElem?_set_ne (by omega), List.getElem?_set_ne (by omega)]
  have h2 : ((input.set 2 0x80).set 3 0x00)[2]? = some 0x80 := by
    rw [List.getElem?_set_ne (by decide), List.getElem?_set_self (by omega)]
  have h3 : ((input.set 2 0x80).set 3 0x00)[3]? = some 0x00 :=
    List.getElem?_set_self (by rw [List.length_set]; omega)
  unfold response
  dsimp only
  split
  · rw [hset 2 (by decide), hset 3 (by decide)]
    exact ⟨h2, h3⟩
  · rw [List.getElem?_append_left (by simp only [List.length_set]; omega),
      List.getElem?_append_left (by simp only [List.length_set]; omega), hset 2 (by decide),
      hset 3 (by decide)]
    exact ⟨h2, h3⟩

/-- What does not begin like a query is not answered. -/
theorem llmnr_recv_other {d stale : Bytes} (hs : stale.length = bufSize) {b : UInt8}
    (hb : d[2]? = some b) (h2 : ¬ b < 2) (ifs : List Ifaddr) (myname : Bytes) (sa : Addr) :
    llmnr_recv ifs myname stale sa d = .ok none := by
  unfold llmnr_recv
  dsimp only
  split
  · rfl
  refine send_other myname ((recvBuf_length hs (length_input _)).ge.trans' (by decide)) (.inr ?_)
  rintro ⟨h13, ⟨c, hc, hlt⟩, -⟩
  unfold recvBuf at hc
  rw [List.getElem?_append_left (by omega), List.getElem?_take_of_lt (by decide), hb] at hc
  cases hc
  exact h2 hlt

/-- What is sent is the response to a message of at least 13 octets. -/
theorem llmnr_recv_response {ifs : List Ifaddr} {myname stale d r : Bytes} {sa : Addr}
    (hs : stale.length = bufSize) (h : llmnr_recv ifs myname stale sa d = .ok (some r)) :
    ∃ input qtype ci, 13 ≤ input.length ∧ r = response input qtype ci := by
  have hl := recvBuf_length hs (length_input d)
  unfold llmnr_recv at h
  dsimp only at h
  split at h
  · cases h
  have hbuf : 13 ≤ (recvBuf stale (d.take (bufSize - 1))).length := hl.ge.trans' (by decide)
  by_cases hq : connected_if ifs sa = none ∨ ¬ IsQuery (recvBuf stale (d.take (bufSize - 1)))
      (d.take (bufSize - 1)).length
  · rw [send_other myname hbuf hq] at h
    cases h
  obtain ⟨hci, hq⟩ := not_or.1 hq
  obtain ⟨ci, hci⟩ := Option.ne_none_iff_exists'.1 hci
  rw [send_query myname hci hbuf (not_not.1 hq)] at h
  cases hlab : labels (recvBuf stale (d.take (bufSize - 1))) 12 none with
  | error e =>
    rw [hlab] at h
    cases h
  | ok o =>
    rw [hlab] at h
    cases o with
    | none => cases h
    | some pn =>
      change (question _ pn.1 pn.2 myname).bind _ = _ at h
      cases hqu : question (recvBuf stale (d.take (bufSize - 1))) pn.1 pn.2 myname with
      | error e =>
        rw [hqu] at h
        cases h
      | ok o =>
        rw [hqu] at h
        obtain ⟨t, -, rfl⟩ := Option.map_eq_some_iff.1 (Except.ok.inj h)
        refine ⟨_, t, ci, ?_, rfl⟩
        have := (not_not.1 hq).1
        have := length_input d
        rw [List.length_take]
        omega

/-- **No responder answers what a responder has sent.** -/
theorem llmnr_quiet {ifs ifs' : List Ifaddr} {myname myname' stale stale' d r : Bytes}
    {sa sa' : Addr} (hs : stale.length = bufSize) (hs' : stale'.length = bufSize)
    (h : llmnr_recv ifs myname stale sa d = .ok (some r)) :
    llmnr_recv ifs' myname' stale' sa' r = .ok none := by
  obtain ⟨input, qtype, ci, hlen, rfl⟩ := llmnr_recv_response hs h
  exact llmnr_recv_other hs' (response_flags hlen qtype ci).1 (by decide) ifs' myname' sa'

end Wsdd
