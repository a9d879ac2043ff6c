import MyCloud.Wsdd.Soap

/-!
# The SOAP messages of the responder

* `parse_soap_msg`: what is written is read back, with its action and its message identifier.
* `wsd_recv_correlates`: what is sent for a request names that request.
* `wsd_quiet`: nothing is sent for a message of a responder.
-/

set_option autoImplicit false

namespace Wsdd

open Shell Wire

/-! ## Tags -/

/-- Without markup, and without white space at the ends. -/
structure Plain (v : Bytes) : Prop where
  text : less ∉ v
  front : v.dropWhile isspace = v
  back : v.rdropWhile isspace = v

instance (v : Bytes) : Decidable (Plain v) :=
  decidable_of_iff (less ∉ v ∧ v.dropWhile isspace = v ∧ v.rdropWhile isspace = v)
    ⟨fun ⟨h1, h2, h3⟩ => ⟨h1, h2, h3⟩, fun ⟨h1, h2, h3⟩ => ⟨h1, h2, h3⟩⟩

theorem not_of_dropWhile {p : UInt8 → Bool} {c : UInt8} {t : Bytes}
    (h : (c :: t).dropWhile p = c :: t) : ¬ p c := by
  intro hc
  rw [List.dropWhile_cons_of_pos hc] at h
  have hlen := (List.dropWhile_suffix p (l := t)).length_le
  rw [h, List.length_cons] at hlen
  omega

theorem dropWhile_append_self {p : UInt8 → Bool} {v : Bytes} (h : v.dropWhile p = v) {a : UInt8}
    (ha : p a = false) (t : Bytes) : (v ++ a :: t).dropWhile p = v ++ a :: t := by
  cases v with
  | nil => exact List.dropWhile_cons_of_neg (Bool.eq_false_iff.1 ha)
  | cons c v => exact List.dropWhile_cons_of_neg (not_of_dropWhile h)

theorem dropWhile_of_prefix {p : UInt8 → Bool} {v w : Bytes} (h : v.dropWhile p = v)
    (hw : w <+: v) : w.dropWhile p = w := by
  cases w with
  | nil => rfl
  | cons c w =>
    obtain ⟨t, rfl⟩ := hw
    exact List.dropWhile_cons_of_neg (not_of_dropWhile h)

theorem clear_text {tag v : Bytes} (ht : tag.head? = some less) (hv : less ∉ v) : Clear tag v := by
  obtain ⟨t, rfl⟩ := List.head?_eq_some_iff.1 ht
  exact clear_of_notMem hv

/-- The text of the first tag is found behind a clear text. -/
theorem wsd_tag_find_field {opening closing l v : Bytes} (hl : Clear opening l) (hv : Plain v)
    (hc : closing.head? = some less) (tags : List (Bytes × Bytes)) (r : Bytes) :
    wsd_tag_find (l ++ (opening ++ (v ++ (closing ++ r)))) ((opening, closing) :: tags) =
      some v := by
  have hclear := clear_text hc hv.text
  obtain ⟨c, rfl⟩ := List.head?_eq_some_iff.1 hc
  rw [wsd_tag_find, cut_clear_append hl]
  dsimp only
  rw [List.cons_append, dropWhile_append_self hv.front (by decide), ← List.cons_append,
    cut_clear_append hclear]
  dsimp only
  rw [if_neg hv.text, hv.back]

/-- Without markup there is no tag. -/
theorem wsd_tag_find_none {xml : Bytes} (h : less ∉ xml) {tags : List (Bytes × Bytes)}
    (ht : ∀ t ∈ tags, less ∈ t.1) : wsd_tag_find xml tags = none := by
  induction tags with
  | nil => rfl
  | cons t tags ih =>
    rw [List.forall_mem_cons] at ht
    rw [wsd_tag_find, cut_eq_none_iff.2 fun hi => h (hi.subset ht.1)]
    exact ih ht.2

/-- What is found is plain, whatever is searched. -/
theorem plain_of_find {xml v : Bytes} {tags : List (Bytes × Bytes)}
    (h : wsd_tag_find xml tags = some v) : Plain v := by
  induction tags with
  | nil => cases h
  | cons t tags ih =>
    rw [wsd_tag_find] at h
    split at h
    · exact ih h
    · split at h
      · exact ih h
      · split at h
        · exact ih h
        · rename_i _ _ p _ _ val rest hc hless
          cases h
          have hpre : val.rdropWhile isspace <+: val := List.rdropWhile_prefix isspace val
          have hval : val <+: p.dropWhile isspace := by
            rw [cut_eq hc, List.append_assoc]
            exact List.prefix_append _ _
          exact ⟨fun hm => hless (hpre.subset hm),
            dropWhile_of_prefix (List.dropWhile_idempotent ..) (hpre.trans hval),
            List.rdropWhile_idempotent isspace val⟩

/-! ## What is written -/

theorem isLowerHex_ne {c : UInt8} (h : isLowerHex c) : c ≠ less ∧ c ≠ 0 ∧ ¬ isspace c := by
  refine ⟨?_, ?_, ?_⟩
  · rintro rfl
    exact absurd h (by decide)
  · rintro rfl
    exact absurd h (by decide)
  · intro hs
    simp only [isLowerHex, isspace, decide_eq_true_eq, UInt8.le_iff_toNat_le,
      ← UInt8.toNat_inj] at h hs
    simp only [show '0'.toUInt8.toNat = 48 from rfl, show 'a'.toUInt8.toNat = 97 from rfl,
      UInt8.reduceToNat] at h hs
    omega

theorem isLowerHex_of_mem_hex {w n : ℕ} {c : UInt8} (h : c ∈ hex w n) : isLowerHex c := by
  obtain ⟨i, -, rfl⟩ := List.mem_map.1 h
  have hd : ∀ d < 16, isLowerHex (UInt8.ofNat (if d < 10 then 48 + d else 87 + d)) := by decide
  exact hd _ (Nat.mod_lt _ (by decide))

theorem isLowerHex_of_mem_decimal {n : ℕ} {c : UInt8} (h : c ∈ decimal n) : isLowerHex c := by
  obtain ⟨d, hc, rfl⟩ := List.mem_map.1 h
  have hd := Nat.isDigit_of_mem_toDigits (by decide) (by decide) hc
  simp only [Char.isDigit, Bool.and_eq_true, decide_eq_true_eq, ge_iff_le,
    UInt32.le_iff_toNat_le, show '0'.val.toNat = 48 from rfl, show '9'.val.toNat = 57 from rfl] at hd
  have ht : d.toUInt8.toNat = d.val.toNat % 256 := rfl
  simp only [isLowerHex, decide_eq_true_eq, UInt8.le_iff_toNat_le, ht]
  simp only [show '0'.toUInt8.toNat = 48 from rfl, show '9'.toUInt8.toNat = 57 from rfl]
  omega

/-- Texts made of hexadecimal digits and others that are not markup either. -/
theorem mem_uuid {r : Random} {c : UInt8} (h : c ∈ uuid_random r) : isLowerHex c ∨ c = dash := by
  unfold uuid_random at h
  simp only [List.mem_append, List.mem_cons] at h
  obtain ((((h | h | h) | h | h) | h | h) | h | h) | h := h
  all_goals first | exact .inl (isLowerHex_of_mem_hex h) | exact .inr h

theorem plain_uuid (r : Random) : Plain (bytes "urn:uuid:" ++ uuid_random r) := by
  have hne : hex 4 r.f.toNat ≠ [] := by
    refine List.ne_nil_of_length_pos ?_
    rw [hex, List.length_map, List.length_reverse, List.length_range]
    decide
  refine ⟨?_, List.dropWhile_cons_of_neg (by decide), ?_⟩
  · rw [List.mem_append, not_or]
    refine ⟨by decide, fun h => ?_⟩
    rcases mem_uuid h with h | h
    · exact (isLowerHex_ne h).1 rfl
    · exact absurd h (by decide)
  · unfold uuid_random
    rw [List.rdropWhile_eq_self_iff, ← List.append_assoc]
    intro h
    rw [List.getLast_append_of_right_ne_nil _ _ hne]
    exact (isLowerHex_ne (isLowerHex_of_mem_hex (List.getLast_mem hne))).2.2

theorem less_notMem_decimal (n : ℕ) : less ∉ decimal n :=
  fun h => (isLowerHex_ne (isLowerHex_of_mem_decimal h)).1 rfl

/-! ## What is written is read back -/

/-- The message up to the end of its action. -/
def throughAction (to_ action : Bytes) : Bytes :=
  soapHead ++ (to_ ++ (bytes "</wsa:To>" ++ (bytes "<wsa:Action>" ++
    (action ++ (bytes "</wsa:Action>" ++ [])))))

theorem find_action {to_ action : Bytes} (hto : less ∉ to_) (ha : Plain action) (r : Bytes) :
    wsd_tag_find (throughAction to_ action ++ r) action_tag = some action := by
  have hl : Clear (bytes "<wsa:Action>") (soapHead ++ (to_ ++ bytes "</wsa:To>")) :=
    (show Clear _ soapHead by decide +kernel).append ((clear_text (by decide) hto).append (by decide))
  have h : wsd_tag_find (_ ++ (_ ++ (_ ++ (bytes "</wsa:Action>" ++ r)))) action_tag = some action :=
    wsd_tag_find_field hl ha (by decide) _ r
  simpa only [throughAction, List.append_assoc, List.nil_append] using h

theorem find_msgid {to_ action : Bytes} (hto : less ∉ to_) (ha : Plain action) (id : Random)
    (r : Bytes) :
    wsd_tag_find (throughAction to_ action ++ (bytes "<wsa:MessageID>" ++
      (bytes "urn:uuid:" ++ uuid_random id ++ (bytes "</wsa:MessageID>" ++ r)))) msgid_tag =
      some (bytes "urn:uuid:" ++ uuid_random id) := by
  have hl : Clear (bytes "<wsa:MessageID>") (throughAction to_ action) :=
    (show Clear _ soapHead by decide +kernel).append ((clear_text (by decide) hto).append
      ((show Clear _ (bytes "</wsa:To>") by decide).append
        ((show Clear _ (bytes "<wsa:Action>") by decide).append
          ((clear_text (by decide) ha.text).append (by decide)))))
  exact wsd_tag_find_field hl (plain_uuid id) (by decide) _ r

/-- The rest of a message behind its identifier. -/
def afterId (h : Host) (relates : Option Bytes) (body : Bytes) (n : Stamp) : Bytes :=
  [bytes "<wsd:AppSequence InstanceId=\"", decimal h.wsd_instance,
    bytes "\" SequenceId=\"urn:uuid:", h.wsd_sequence, bytes "\" ",
    bytes "MessageNumber=\"", decimal n.msg_no.toNat, bytes "\" />",
    soap_relates relates, bytes "</soap:Header>", body, bytes "</soap:Envelope>"].flatten

theorem soap_msg_eq (h : Host) (to_ action : Bytes) (relates : Option Bytes) (body : Bytes)
    (n : Stamp) :
    soap_msg h to_ action relates body n = throughAction to_ action ++ (bytes "<wsa:MessageID>" ++
      (bytes "urn:uuid:" ++ uuid_random n.random ++ (bytes "</wsa:MessageID>" ++
        afterId h relates body n))) := by
  simp only [soap_msg, throughAction, afterId, List.flatten_cons, List.append_assoc,
    List.nil_append]

/-- **What is written is read back.** -/
theorem parse_soap_msg (h : Host) {to_ action : Bytes} (hto : less ∉ to_) (ha : Plain action)
    (relates : Option Bytes) (body : Bytes) (n : Stamp) :
    wsd_req_parse (soap_msg h to_ action relates body n) =
      some ⟨action, bytes "urn:uuid:" ++ uuid_random n.random⟩ := by
  unfold wsd_req_parse
  rw [soap_msg_eq, find_action hto ha, find_msgid hto ha]
  rfl

def relates_tag : List (Bytes × Bytes) := [(bytes "<wsa:RelatesTo>", bytes "</wsa:RelatesTo>")]

/-- The request that a message names. -/
theorem find_relates (h : Host) {to_ action msgid : Bytes} (hto : less ∉ to_) (ha : Plain action)
    (hm : Plain msgid) (body : Bytes) (n : Stamp) :
    wsd_tag_find (soap_msg h to_ action (some msgid) body n) relates_tag = some msgid := by
  let pieces := [soapHead, to_, bytes "</wsa:To>",
    bytes "<wsa:Action>", action, bytes "</wsa:Action>",
    bytes "<wsa:MessageID>", bytes "urn:uuid:" ++ uuid_random n.random, bytes "</wsa:MessageID>",
    bytes "<wsd:AppSequence InstanceId=\"", decimal h.wsd_instance,
    bytes "\" SequenceId=\"urn:uuid:", h.wsd_sequence, bytes "\" ",
    bytes "MessageNumber=\"", decimal n.msg_no.toNat, bytes "\" />"]
  have ht : (bytes "<wsa:RelatesTo>").head? = some less := by decide
  have hclear : Clear (bytes "<wsa:RelatesTo>") pieces.flatten := by
    refine clear_flatten ?_
    simp only [pieces, List.forall_mem_cons]
    refine ⟨by decide +kernel, clear_text ht hto, by decide, by decide, clear_text ht ha.text,
      by decide, by decide, clear_text ht (plain_uuid n.random).text, by decide, by decide,
      clear_text ht (less_notMem_decimal _), by decide, clear_text ht h.sequence_text, by decide,
      by decide, clear_text ht (less_notMem_decimal _), by decide, ?_⟩
    exact fun _ hx => absurd hx List.not_mem_nil
  have hmsg : soap_msg h to_ action (some msgid) body n = pieces.flatten ++ (bytes "<wsa:RelatesTo>" ++
      (msgid ++ (bytes "</wsa:RelatesTo>" ++
        (bytes "</soap:Header>" ++ (body ++ bytes "</soap:Envelope>"))))) := by
    simp only [soap_msg, soap_relates, pieces, List.flatten_cons, List.flatten_nil, List.append_assoc,
      List.append_nil]
  rw [hmsg]
  exact wsd_tag_find_field hclear hm (by decide) _ _

/-! ## Requests and answers -/

/-- The actions that are answered, and the actions of the answers. -/
def replies : List (Bytes × Bytes) := [(WSD_ACT_PROBE, WSD_ACT_PROBEMATCH),
  (WSD_ACT_RESOLVE, WSD_ACT_RESOLVEMATCH), (WXT_ACT_GET, WXT_ACT_GETRESPONSE)]

theorem wsd_action_id_other {info : ReqInfo} (h : info.action ∉ replies.map (·.1)) :
    wsd_action_id (some info) ∉ [.probe, .resolve, .get] := by
  simp only [replies, List.map_cons, List.map_nil, List.mem_cons, List.not_mem_nil, or_false,
    not_or] at h
  obtain ⟨h1, h2, h3⟩ := h
  unfold wsd_action_id
  dsimp only
  rw [if_neg h1, if_neg h2, if_neg h3]
  split
  · decide
  split
  · decide
  split
  · decide
  split
  · decide
  split <;> decide

theorem less_notMem_twoDigits (n : ℕ) : less ∉ twoDigits n := by
  unfold twoDigits
  split
  · rw [List.mem_append, not_or]
    exact ⟨by decide, less_notMem_decimal n⟩
  · exact less_notMem_decimal n

theorem less_notMem_strftime (t : Tm) : less ∉ strftime t := by
  have hday : ∀ i : Fin 7, less ∉
      (["Sun", "Mon", "Tue", "Wed", "Thu", "Fri", "Sat"].map bytes).getD i [] := by decide
  have hmon : ∀ i : Fin 12, less ∉ (["Jan", "Feb", "Mar", "Apr", "May", "Jun", "Jul", "Aug", "Sep",
      "Oct", "Nov", "Dec"].map bytes).getD i [] := by decide
  unfold strftime
  simp only [List.mem_append, not_or]
  have h2 := less_notMem_twoDigits
  exact ⟨⟨⟨⟨⟨⟨⟨⟨⟨⟨⟨⟨⟨hday _, by decide⟩, h2 _⟩, by decide⟩, hmon _⟩, by decide⟩,
    less_notMem_decimal _⟩, by decide⟩, h2 _⟩, by decide⟩, h2 _⟩, by decide⟩, h2 _⟩, by decide⟩

theorem less_notMem_header (date : Tm) (length : ℕ) :
    less ∉ send_http_resp_header date 200 length := by
  unfold send_http_resp_header
  simp only [List.mem_append, not_or]
  exact ⟨⟨⟨⟨⟨⟨⟨⟨⟨⟨⟨⟨⟨⟨⟨by decide, by decide⟩, by decide⟩, by decide⟩, by decide⟩, by decide⟩,
    less_notMem_strftime _⟩, by decide⟩, by decide⟩, by decide⟩, by decide⟩, by decide⟩, by decide⟩,
    less_notMem_decimal _⟩, by decide⟩, by decide⟩

section
variable {h : Host} {ifs : List Ifaddr} {sa ci : Addr} {xml : Bytes} (date : Tm) (n : Stamp)

/-- What is sent for a request with an action that is answered. -/
theorem wsd_respond_reply {info : ReqInfo} {r : Bytes} (hp : wsd_req_parse xml = some info)
    (hr : (info.action, r) ∈ replies) (hci : connected_if ifs sa = some ci) :
    ∃ pre body, wsd_respond h ifs sa xml date n =
        pre ++ [soap_msg h WSD_TO_ANONYMOUS r (some info.msgid) body n] ∧
      ∀ m ∈ pre, ∃ length, m = send_http_resp_header date 200 length := by
  obtain ⟨action, msgid⟩ := info
  unfold wsd_respond
  rw [hp, hci]
  dsimp only at *
  simp only [replies, List.mem_cons, Prod.mk.injEq, List.not_mem_nil, or_false] at hr
  obtain ⟨rfl, rfl⟩ | ⟨rfl, rfl⟩ | ⟨rfl, rfl⟩ := hr
  · have hid : wsd_action_id (some ⟨WSD_ACT_PROBE, msgid⟩) = .probe := by
      unfold wsd_action_id
      dsimp only
      rw [if_neg (by decide), if_neg (by decide), if_pos rfl]
    rw [hid]
    exact ⟨[], _, rfl, by simp⟩
  · have hid : wsd_action_id (some ⟨WSD_ACT_RESOLVE, msgid⟩) = .resolve := by
      unfold wsd_action_id
      dsimp only
      rw [if_neg (by decide), if_neg (by decide), if_neg (by decide), if_neg (by decide), if_pos rfl]
    rw [hid]
    exact ⟨[], _, rfl, by simp⟩
  · have hid : wsd_action_id (some ⟨WXT_ACT_GET, msgid⟩) = .get := by
      unfold wsd_action_id
      dsimp only
      rw [if_neg (by decide), if_neg (by decide), if_neg (by decide), if_neg (by decide),
        if_neg (by decide), if_neg (by decide), if_pos rfl]
    rw [hid]
    exact ⟨[_], _, rfl, List.forall_mem_singleton.2 ⟨_, rfl⟩⟩

theorem wsd_respond_other (hn : connected_if ifs sa = none ∨
    ∀ info, wsd_req_parse xml = some info → info.action ∉ replies.map (·.1)) :
    wsd_respond h ifs sa xml date n = [] := by
  unfold wsd_respond
  cases hp : wsd_req_parse xml with
  | none => rfl
  | some info =>
    cases hci : connected_if ifs sa with
    | none => rfl
    | some ci =>
      have ha := (hn.resolve_left (by rw [hci]; exact Option.some_ne_none ci)) info hp
      have hid := wsd_action_id_other ha
      simp only [List.mem_cons, List.not_mem_nil, or_false, not_or] at hid
      obtain ⟨h1, h2, h3⟩ := hid
      dsimp only
      split
      · exact absurd ‹_› h1
      · exact absurd ‹_› h2
      · exact absurd ‹_› h3
      · rfl

end

/-- The empty datagram needs no case of its own. -/
theorem wsd_recv_dgram_eq (h : Host) (ifs : List Ifaddr) (sa : Addr) (d : Bytes) (date : Tm)
    (n : Stamp) : wsd_recv_dgram h ifs sa d date n =
      wsd_respond h ifs sa (cstr (d.take (wsdBufSize - 1))) date n := by
  unfold wsd_recv_dgram
  dsimp only
  split
  · rename_i h0
    refine (wsd_respond_other date n (.inr fun info hp => ?_)).symm
    rw [h0] at hp
    cases hp
  · rfl

theorem plain_msgid {xml : Bytes} {info : ReqInfo} (hp : wsd_req_parse xml = some info) :
    Plain info.msgid := by
  unfold wsd_req_parse at hp
  obtain ⟨action, -, hp⟩ := Option.bind_eq_some_iff.1 hp
  obtain ⟨msgid, hm, hp⟩ := Option.bind_eq_some_iff.1 hp
  cases hp
  exact plain_of_find hm

theorem plain_reply {a r : Bytes} (hr : (a, r) ∈ replies) : Plain r := by
  have h : ∀ x ∈ replies, Plain x.2 := by decide +kernel
  exact h _ hr

section
variable (h : Host) (ifs : List Ifaddr) (sa : Addr) (d : Bytes) (date : Tm) (n : Stamp)

/-- What is sent for a request is read back as the answer to it. -/
theorem wsd_recv_reply {info : ReqInfo} {r : Bytes}
    (hp : wsd_req_parse (cstr (d.take (wsdBufSize - 1))) = some info)
    (hr : (info.action, r) ∈ replies) (hci : connected_if ifs sa ≠ none) :
    ∃ pre m, wsd_recv_dgram h ifs sa d date n = pre ++ [m] ∧ (∀ x ∈ pre, less ∉ x) ∧
      wsd_req_parse m = some ⟨r, bytes "urn:uuid:" ++ uuid_random n.random⟩ ∧
      wsd_tag_find m relates_tag = some info.msgid := by
  obtain ⟨ci, hci⟩ := Option.ne_none_iff_exists'.1 hci
  obtain ⟨pre, body, he, hpre⟩ := wsd_respond_reply date n hp hr hci (h := h)
  have hto : less ∉ WSD_TO_ANONYMOUS := by decide
  have hplain := plain_reply hr
  refine ⟨pre, _, (wsd_recv_dgram_eq ..).trans he, fun x hx => ?_,
    parse_soap_msg h hto hplain _ _ n, find_relates h hto hplain (plain_msgid hp) _ n⟩
  obtain ⟨length, rfl⟩ := hpre x hx
  exact less_notMem_header date length

/-- Nothing is sent for what is not a request, and for requests from elsewhere. -/
theorem wsd_recv_nil_iff : wsd_recv_dgram h ifs sa d date n = [] ↔ connected_if ifs sa = none ∨
    ∀ info, wsd_req_parse (cstr (d.take (wsdBufSize - 1))) = some info →
      info.action ∉ replies.map (·.1) := by
  refine ⟨fun h0 => ?_, fun hno => (wsd_recv_dgram_eq ..).trans (wsd_respond_other date n hno)⟩
  by_contra hno
  rw [not_or] at hno
  obtain ⟨hci, hno⟩ := hno
  push Not at hno
  obtain ⟨info, hp, hmem⟩ := hno
  obtain ⟨⟨a, r⟩, hr, ha⟩ := List.mem_map.1 hmem
  cases ha
  obtain ⟨pre, m, he, -⟩ := wsd_recv_reply h ifs sa d date n hp hr hci
  rw [h0] at he
  exact absurd he.symm (by simp)

end

/-- **What is sent for a datagram is read back as the answer to it: it names the identifier of the
request, in whatever octets the request came. Nothing is sent for other datagrams.** -/
theorem wsd_recv_correlates (h : Host) (ifs : List Ifaddr) (sa : Addr) (d : Bytes) (date : Tm)
    (n : Stamp) :
    let xml := cstr (d.take (wsdBufSize - 1))
    (wsd_recv_dgram h ifs sa d date n = [] ↔ connected_if ifs sa = none ∨
      ∀ info, wsd_req_parse xml = some info → info.action ∉ replies.map (·.1)) ∧
    ∀ info r, wsd_req_parse xml = some info → (info.action, r) ∈ replies →
      connected_if ifs sa ≠ none →
      ∃ pre m, wsd_recv_dgram h ifs sa d date n = pre ++ [m] ∧ (∀ x ∈ pre, less ∉ x) ∧
        wsd_req_parse m = some ⟨r, bytes "urn:uuid:" ++ uuid_random n.random⟩ ∧
        wsd_tag_find m relates_tag = some info.msgid :=
  ⟨wsd_recv_nil_iff h ifs sa d date n, fun _ _ => wsd_recv_reply h ifs sa d date n⟩

/-- A request for any device. -/
def probeRequest : Bytes :=
  bytes "<soap:Envelope><soap:Header><wsa:Action>" ++ WSD_ACT_PROBE ++
  bytes "</wsa:Action><wsa:MessageID> urn:uuid:0a </wsa:MessageID></soap:Header></soap:Envelope>"

theorem parse_probeRequest : wsd_req_parse (cstr (probeRequest.take (wsdBufSize - 1))) =
    some ⟨WSD_ACT_PROBE, bytes "urn:uuid:0a"⟩ := by decide +kernel

def someHost : Host :=
  ⟨1700000000, uuid_random ⟨1, 2, 3, 4, 5, 6⟩, by decide, uuid_random ⟨7, 8, 9, 10, 11, 12⟩,
    bytes "nas", bytes "NAS", bytes "WORKGROUP", bootinfo, 3702⟩

def eth0 : List Ifaddr :=
  [⟨bytes "eth0", some ⟨.inet, [192, 168, 1, 5], rfl⟩, [255, 255, 255, 0], false, true⟩]

def neighbour : Addr := ⟨.inet, [192, 168, 1, 9], rfl⟩

theorem wsd_recv_correlates_probe :
    ∃ m ∈ wsd_recv_dgram someHost eth0 neighbour probeRequest ⟨0, 1, 0, 2024, 0, 0, 0⟩
        ⟨⟨1, 1, 1, 1, 1, 1⟩, 1⟩,
      wsd_tag_find m relates_tag = some (bytes "urn:uuid:0a") := by
  obtain ⟨pre, m, he, -, -, hr⟩ := (wsd_recv_correlates someHost eth0 neighbour _ _ _).2 _ _
    parse_probeRequest (.head _) (by decide)
  exact ⟨m, by rw [he]; exact List.mem_concat_self, hr⟩

/-- The messages of a responder: what it announces, and what it answers. -/
inductive Sent : Bytes → Prop
  | hello (h : Host) (n : Stamp) : Sent (wsd_send_hello h n)
  | bye (h : Host) (n : Stamp) : Sent (wsd_send_bye h n)
  | answer {h : Host} {ifs : List Ifaddr} {sa : Addr} {d m : Bytes} {date : Tm} {n : Stamp} :
      m ∈ wsd_recv_dgram h ifs sa d date n → Sent m

theorem cstr_take_append {l r : Bytes} {k : ℕ} (hk : l.length ≤ k) (h0 : 0 ∉ l) :
    cstr ((l ++ r).take k) = l ++ cstr (r.take (k - l.length)) := by
  rw [List.take_append, List.take_of_length_le hk]
  unfold cstr
  exact List.takeWhile_append_of_pos fun c hc => decide_eq_true fun h => h0 (h ▸ hc)

theorem length_cstr_le {l : Bytes} {i : ℕ} (h : l[i]? = some 0) : (cstr l).length ≤ i := by
  by_contra hlt
  rw [not_le] at hlt
  obtain ⟨t, ht⟩ : cstr l <+: l := List.takeWhile_prefix _
  have hmem : (0 : UInt8) ∈ cstr l := by
    rw [← ht, List.getElem?_append_left hlt] at h
    exact List.mem_of_getElem? h
  have hne := List.mem_takeWhile_imp hmem
  exact absurd hne (by decide)

/-- The receivers and the actions of what is sent. -/
def sendings : List (Bytes × Bytes) := [(WSD_TO_DISCOVERY, WSD_ACT_HELLO),
  (WSD_TO_DISCOVERY, WSD_ACT_BYE), (WSD_TO_ANONYMOUS, WSD_ACT_PROBEMATCH),
  (WSD_TO_ANONYMOUS, WSD_ACT_RESOLVEMATCH), (WSD_TO_ANONYMOUS, WXT_ACT_GETRESPONSE)]

theorem sendings_text : ∀ x ∈ sendings, less ∉ x.1 ∧ Plain x.2 ∧ 0 ∉ x.1 ∧ 0 ∉ x.2 ∧
    x.1.length + x.2.length ≤ 200 ∧ x.2 ∉ replies.map (·.1) := by decide +kernel

/-- What is sent is a message of one of these actions, or a header. -/
theorem Sent.cases {m : Bytes} (hm : Sent m) :
    (∃ date length, m = send_http_resp_header date 200 length) ∨
    ∃ h to_ action relates body n, (to_, action) ∈ sendings ∧
      m = soap_msg h to_ action relates body n := by
  cases hm with
  | hello h n => exact .inr ⟨h, _, _, _, _, n, .head _, rfl⟩
  | bye h n => exact .inr ⟨h, _, _, _, _, n, .tail _ (.head _), rfl⟩
  | @answer h ifs sa d m date n hm =>
    rw [wsd_recv_dgram_eq] at hm
    by_cases hno : connected_if ifs sa = none ∨ ∀ info,
        wsd_req_parse (cstr (d.take (wsdBufSize - 1))) = some info → info.action ∉ replies.map (·.1)
    · rw [wsd_respond_other date n hno] at hm
      cases hm
    · rw [not_or] at hno
      obtain ⟨hci, hno⟩ := hno
      push Not at hno
      obtain ⟨info, hp, hmem⟩ := hno
      obtain ⟨⟨a, r⟩, hr, ha⟩ := List.mem_map.1 hmem
      cases ha
      obtain ⟨ci, hci⟩ := Option.ne_none_iff_exists'.1 hci
      obtain ⟨pre, body, he, hpre⟩ := wsd_respond_reply date n hp hr hci (h := h)
      rw [he, List.mem_append, List.mem_singleton] at hm
      have hs : ∀ x ∈ replies, (WSD_TO_ANONYMOUS, x.2) ∈ sendings := by decide +kernel
      exact hm.imp (fun hm => ⟨date, hpre m hm⟩) fun hm => ⟨h, _, _, _, body, n, hs _ hr, hm⟩

/-- **Nothing is sent for what a responder has sent.** -/
theorem wsd_quiet {m : Bytes} (hm : Sent m) (h : Host) (ifs : List Ifaddr) (sa : Addr) (date : Tm)
    (n : Stamp) : wsd_recv_dgram h ifs sa m date n = [] := by
  refine (wsd_recv_nil_iff h ifs sa m date n).2 (.inr fun info hp => ?_)
  unfold wsd_req_parse at hp
  obtain ⟨action, ha, hp⟩ := Option.bind_eq_some_iff.1 hp
  obtain ⟨msgid, -, hp⟩ := Option.bind_eq_some_iff.1 hp
  cases hp
  rcases hm.cases with ⟨date', length, rfl⟩ | ⟨h', to_, action', relates, body, n', hmem, rfl⟩
  · have hx : less ∉ cstr ((send_http_resp_header date' 200 length).take (wsdBufSize - 1)) :=
      fun hx => less_notMem_header date' length
        (List.mem_of_mem_take ((List.takeWhile_prefix _).subset hx))
    rw [wsd_tag_find_none hx (by decide)] at ha
    cases ha
  · obtain ⟨hto, hplain, h0, h0', hlen, hno⟩ := sendings_text _ hmem
    have hpre : 0 ∉ throughAction to_ action' := by
      have hhead : 0 ∉ soapHead := by decide +kernel
      simp only [throughAction, List.mem_append, not_or]
      exact ⟨hhead, h0, by decide, by decide, h0', by decide, List.not_mem_nil⟩
    have hk : (throughAction to_ action').length ≤ wsdBufSize - 1 := by
      have hhead : soapHead.length ≤ 1000 := by decide +kernel
      have h1 : (bytes "</wsa:To>").length = 9 := by decide
      have h2 : (bytes "<wsa:Action>").length = 12 := by decide
      have h3 : (bytes "</wsa:Action>").length = 13 := by decide
      simp only [throughAction, List.length_append, h1, h2, h3, List.length_nil, wsdBufSize]
      dsimp only at hlen
      omega
    rw [soap_msg_eq, cstr_take_append hk hpre, find_action hto hplain] at ha
    cases ha
    exact hno

end Wsdd
