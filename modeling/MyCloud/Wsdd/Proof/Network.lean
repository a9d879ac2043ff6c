import MyCloud.Wire.Network
import MyCloud.Wsdd.Proof.Llmnr
import MyCloud.Wsdd.Proof.Soap

/-!
# Responders in one network

Any number of hosts run the responder. Their datagrams and those of others are lost, doubled and
reordered, reach any port of any host, and bear any sender.

* `quiet_hosts`: no service answers what a service of a host has sent, be it the other service.
* `only_others_answered`: hence no datagrams go back and forth between hosts.
-/

set_option autoImplicit false

namespace Wsdd

open Shell Dns Wire

/-! ## What hosts send -/

/-- `Hello` when a service starts, `Bye` when it ends. -/
def Announces (m : Bytes) : Prop := ∃ h n, m = wsd_send_hello h n ∨ m = wsd_send_bye h n

/-- What some host sends for a datagram. A host that dies of it sends nothing. -/
inductive HostAnswers (d : Bytes) : List Bytes → Prop
  | llmnr {stale : Bytes} (ifs : List Ifaddr) (myname : Bytes) (sa : Addr) :
      stale.length = bufSize →
      HostAnswers d (match llmnr_recv ifs myname stale sa d with
        | .ok (some r) => [r]
        | _ => [])
  | wsd (h : Host) (ifs : List Ifaddr) (sa : Addr) (date : Tm) (n : Stamp) :
      HostAnswers d (wsd_recv_dgram h ifs sa d date n)

/-! ## The other service -/

theorem Sent.third {m : Bytes} (hm : Sent m) : ∃ b, m[2]? = some b ∧ ¬ b < 2 := by
  rcases hm.cases with ⟨date, length, rfl⟩ | ⟨h, to_, action, relates, body, n, -, rfl⟩
  · exact ⟨'T'.toUInt8, rfl, by decide⟩
  · exact ⟨'x'.toUInt8, rfl, by decide⟩

/-- A tag is longer than three octets. -/
theorem wsd_req_parse_short {xml : Bytes} (h : xml.length ≤ 3) : wsd_req_parse xml = none := by
  have hcut : ∀ tag : Bytes, 3 < tag.length → cut tag xml = none := fun tag ht =>
    cut_eq_none_iff.2 fun hi => absurd hi.length_le (by omega)
  unfold wsd_req_parse action_tag
  rw [wsd_tag_find, hcut _ (by decide)]
  dsimp only
  rw [wsd_tag_find, hcut _ (by decide)]
  rfl

/-- The zero octet of the flags ends the text. -/
theorem wsd_recv_response {input : Bytes} (hl : 13 ≤ input.length) (qtype : UInt16) (ci : Addr)
    (h : Host) (ifs : List Ifaddr) (sa : Addr) (date : Tm) (n : Stamp) :
    wsd_recv_dgram h ifs sa (response input qtype ci) date n = [] := by
  rw [wsd_recv_dgram_eq]
  refine wsd_respond_other date n (.inr fun info hp => ?_)
  have h3 := (response_flags hl qtype ci).2
  rw [wsd_req_parse_short (length_cstr_le (by rwa [List.getElem?_take_of_lt (by decide)]))] at hp
  cases hp

/-- **No service answers what a service of a host has sent, be it the other service.** -/
theorem quiet_hosts : Quiet Announces HostAnswers where
  own := by
    rintro m bs ⟨h, n, hm⟩ hb
    have hs : Sent m := by
      rcases hm with rfl | rfl
      · exact .hello h n
      · exact .bye h n
    obtain ⟨b, h2, hlt⟩ := hs.third
    cases hb with
    | llmnr ifs myname sa hl => rw [llmnr_recv_other hl h2 hlt]
    | wsd h ifs sa date n => exact wsd_quiet hs h ifs sa date n
  answer := by
    intro m b as bs ha hb hbs
    cases ha with
    | @llmnr stale ifs myname sa hl =>
      split at hb
      · rename_i r hr
        rw [List.mem_singleton.1 hb] at hbs
        obtain ⟨input, qtype, ci, hlen, rfl⟩ := llmnr_recv_response hl hr
        cases hbs with
        | llmnr ifs' myname' sa' hl' => rw [llmnr_quiet hl hl' hr]
        | wsd h ifs' sa' date n => exact wsd_recv_response hlen qtype ci h ifs' sa' date n
      · cases hb
    | wsd h ifs sa date n =>
      have hs : Sent b := .answer hb
      obtain ⟨c, h2, hlt⟩ := hs.third
      cases hbs with
      | llmnr ifs' myname' sa' hl' => rw [llmnr_recv_other hl' h2 hlt]
      | wsd h' ifs' sa' date' n' => exact wsd_quiet hs h' ifs' sa' date' n'

/-! ## Runs -/

theorem length_answers_le {d : Bytes} {bs : List Bytes} (h : HostAnswers d bs) : bs.length ≤ 2 := by
  cases h with
  | llmnr =>
    split
    · exact Nat.le_succ 1
    · exact Nat.zero_le 2
  | wsd h ifs sa date n =>
    rw [wsd_recv_dgram_eq]
    unfold wsd_respond
    split
    · exact Nat.zero_le 2
    · split
      · exact Nat.zero_le 2
      · split
        · exact Nat.le_succ 1
        · exact Nat.le_succ 1
        · exact le_rfl
        · exact Nat.zero_le 2

/-- **In every run, a datagram that a host answers is one that others have sent, and there are no more
than two answers for each time that such a datagram arrives.** -/
theorem only_others_answered {es : List (Event Bytes)} (h : Run Announces HostAnswers es) :
    (∀ d bs, .deliver d bs ∈ es → bs ≠ [] → .external d ∈ es) ∧
      (es.flatMap Event.answers).length ≤ 2 * arrivals es :=
  ⟨fun _ _ hd hne => h.answered quiet_hosts hd hne,
    h.sent_le quiet_hosts fun _ _ => length_answers_le⟩

/-- A request that comes twice and is answered once, by one of two hosts. -/
theorem only_others_answered_twice : ∃ (es : List (Event Bytes)) (bs : List Bytes),
    bs ≠ [] ∧ .deliver probeRequest bs ∈ es ∧ .external probeRequest ∈ es ∧
      (es.flatMap Event.answers).length ≤ 2 * arrivals es := by
  let date : Tm := ⟨0, 1, 0, 2024, 0, 0, 0⟩
  let n : Stamp := ⟨⟨1, 1, 1, 1, 1, 1⟩, 1⟩
  let bs := wsd_recv_dgram someHost eth0 neighbour probeRequest date n
  have hne : bs ≠ [] := by
    obtain ⟨pre, m, he, -⟩ := wsd_recv_reply someHost eth0 neighbour _ date n parse_probeRequest
      (.head _) (by decide)
    exact fun h0 => absurd (he.symm.trans h0) (by simp)
  have hother : HostAnswers probeRequest [] := by
    have h0 : wsd_recv_dgram someHost [] neighbour probeRequest date n = [] :=
      (wsd_recv_nil_iff someHost [] neighbour _ date n).2 (.inl rfl)
    exact h0 ▸ .wsd someHost [] neighbour date n
  have hrun : Run Announces HostAnswers
      [.deliver probeRequest bs, .deliver probeRequest [], .external probeRequest] :=
    .deliver (.head _) (.wsd someHost eth0 neighbour date n)
      (.deliver (.head _) hother (.external _ .nil))
  obtain ⟨honly, hle⟩ := only_others_answered hrun
  exact ⟨_, bs, hne, .head _, honly _ bs (.head _) hne, hle⟩

end Wsdd
