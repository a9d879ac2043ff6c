import MyCloud.Wsdd.Http
import MyCloud.Wsdd.Proof.Soap

/-!
# Requests in pieces

* `scan_text`: the loop over the lines goes through the text at `p` as `headerOf` does.
* `wsd_recv_stream_eq`: a request with its header in the first piece, by its text and what follows.
* `stream_whole_header`: with the header in the first piece, the answer is that of the text of this
  piece and of at most one more, and no memory is touched that should not be.
* `http_two_pieces`: with a header in two pieces, the responder dies just when the second piece is
  short.
-/

set_option autoImplicit false

namespace Wsdd

open Shell Wire

/-! ## Strings in the buffer -/

theorem cstr_append_zero (t r : Bytes) : cstr (t ++ 0 :: r) = cstr t := by
  unfold cstr
  induction t with
  | nil => rfl
  | cons c t ih =>
    rw [List.cons_append, List.takeWhile_cons, List.takeWhile_cons, ih]

theorem cstr_eq_self {t : Bytes} (h : 0 ∉ t) : cstr t = t :=
  List.takeWhile_eq_self_iff.2 fun _ hc => decide_eq_true fun h0 => h (h0 ▸ hc)

theorem zero_notMem_cstr (t : Bytes) : 0 ∉ cstr t := by
  intro h
  have hne := List.mem_takeWhile_imp h
  exact absurd hne (by decide)

theorem cstr_set {l : Bytes} {i : ℕ} (hi : i < l.length) : cstr (l.set i 0) = cstr (l.take i) := by
  rw [List.set_eq_take_append_cons_drop, if_pos hi, cstr_append_zero]

/-- A text with a zero octet is its string, the zero, and the rest. -/
theorem exists_cstr {l : Bytes} (h : 0 ∈ l) : ∃ r, l = cstr l ++ 0 :: r := by
  induction l with
  | nil => cases h
  | cons c l ih =>
    by_cases hc : c = 0
    · exact ⟨l, by rw [hc]; rfl⟩
    · obtain ⟨r, hr⟩ := ih ((List.mem_cons.1 h).resolve_left (Ne.symm hc))
      refine ⟨r, ?_⟩
      have hcons : cstr (c :: l) = c :: cstr l := List.takeWhile_cons_of_pos (decide_eq_true hc)
      rw [hcons, List.cons_append, ← hr]

/-! ## The lines of a text -/

/-- What follows the lines that are whole. -/
structure Head where
  rest : Bytes
  contentlength : UInt32
  eoh : Bool

/-- The lines of a text, up to the empty line or as far as they are whole. -/
def headerOf (t : Bytes) (contentlength : UInt32) : Except HttpError Head :=
  match _h : cut crlf t with
  | none => .ok ⟨t, contentlength, false⟩
  | some (line, rest) =>
    if line = [] then .ok ⟨rest, contentlength, true⟩
    else
      match headerLine contentlength line with
      | .error e => .error e
      | .ok contentlength => headerOf rest contentlength
termination_by t.length
decreasing_by
  rw [cut_eq _h]
  simp only [List.length_append, crlf, List.length_cons]
  omega

theorem headerOf_stop {t : Bytes} (h : cut crlf t = none) (cl : UInt32) :
    headerOf t cl = .ok ⟨t, cl, false⟩ := by
  rw [headerOf]
  split
  · rfl
  · rename_i hc
    rw [h] at hc
    cases hc

theorem headerOf_end {t rest : Bytes} (h : cut crlf t = some ([], rest)) (cl : UInt32) :
    headerOf t cl = .ok ⟨rest, cl, true⟩ := by
  rw [headerOf]
  split
  · rename_i hc
    rw [h] at hc
    cases hc
  · rename_i hc
    rw [h] at hc
    cases hc
    rfl

theorem headerOf_line {t line rest : Bytes} (h : cut crlf t = some (line, rest)) (hne : line ≠ [])
    {cl cl' : UInt32} (hl : headerLine cl line = .ok cl') : headerOf t cl = headerOf rest cl' := by
  rw [headerOf]
  split
  · rename_i hc
    rw [h] at hc
    cases hc
  · rename_i hc
    rw [h] at hc
    cases hc
    rw [if_neg hne, hl]

theorem headerOf_suffix {t : Bytes} {cl : UInt32} {hd : Head} (h : headerOf t cl = .ok hd) :
    hd.rest <:+ t := by
  fun_induction headerOf t cl with
  | case1 t cl => cases h; exact List.suffix_rfl
  | case2 t cl rest hc =>
    cases h
    rw [cut_eq hc]
    exact ⟨_, rfl⟩
  | case3 => cases h
  | case4 t cl line rest hc _ _ _ ih =>
    rw [cut_eq hc]
    exact (ih h).trans ⟨_, rfl⟩

theorem headerOf_unfinished {t : Bytes} {cl : UInt32} {hd : Head} (h : headerOf t cl = .ok hd)
    (he : hd.eoh = false) : cut crlf hd.rest = none := by
  fun_induction headerOf t cl with
  | case1 t cl hc => cases h; exact hc
  | case2 => cases h; cases he
  | case3 => cases h
  | case4 t cl line rest hc _ _ _ ih => exact ih h

theorem scan_step {t junk buf : Bytes} {p : ℕ} (h0 : 0 ∉ t) (h : buf.drop p = t ++ 0 :: junk)
    (cl : UInt32) :
    scan buf p cl = match cut crlf t with
      | none => .ok (.ok ⟨buf, p, cl, false⟩)
      | some (line, _) =>
        if line = [] then .ok (.ok ⟨buf, p + 2, cl, true⟩)
        else
          match headerLine cl line with
          | .error e => .ok (.error e)
          | .ok cl => scan (buf.set (p + line.length) 0) (p + line.length + 2) cl := by
  have hstr : cstr (buf.drop p) = t := by rw [h, cstr_append_zero, cstr_eq_self h0]
  have hmem : 0 ∈ buf.drop p := by
    rw [h]
    exact List.mem_append_right t (.head _)
  rw [scan, if_neg (not_not.2 hmem)]
  split
  · rename_i hc
    rw [hstr] at hc
    rw [hc]
  · rename_i line rest hc
    rw [hstr] at hc
    cases hline : headerLine cl line with
    | error e => simp only [hc, hline]
    | ok cl' => simp only [hc, hline]

/-- The loop over the lines goes through the text at `p`, and what is behind it stays. -/
theorem scan_text {t junk buf : Bytes} {p : ℕ} (h0 : 0 ∉ t) (h : buf.drop p = t ++ 0 :: junk)
    (cl : UInt32) :
    match headerOf t cl with
    | .error e => scan buf p cl = .ok (.error e)
    | .ok hd => ∃ buf', scan buf p cl =
        .ok (.ok ⟨buf', p + (t.length - hd.rest.length), hd.contentlength, hd.eoh⟩) ∧
        buf'.length = buf.length ∧
        buf'.drop (p + (t.length - hd.rest.length)) = hd.rest ++ 0 :: junk := by
  fun_induction headerOf t cl generalizing buf p with
  | case1 t cl hc =>
    have hp : p + (t.length - t.length) = p := by omega
    dsimp only
    rw [hp]
    exact ⟨buf, by rw [scan_step h0 h, hc], rfl, h⟩
  | case2 t cl rest hc =>
    have ht := cut_eq hc
    have hlen : t.length - rest.length = 2 := by
      rw [ht, List.length_append, Nat.add_sub_cancel]
      rfl
    refine ⟨buf, ?_, rfl, ?_⟩
    · rw [scan_step h0 h, hc, hlen]
      rfl
    · dsimp only
      rw [hlen, ← List.drop_drop, h, ht]
      rfl
  | case3 t cl line rest hc hne e he =>
    rw [scan_step h0 h, hc]
    dsimp only
    rw [if_neg hne, he]
  | case4 t cl line rest hc hne cl' he ih =>
    have ht := cut_eq hc
    have hrest : (buf.set (p + line.length) 0).drop (p + line.length + 2) = rest ++ 0 :: junk := by
      rw [List.drop_set_of_lt (by omega), Nat.add_assoc, ← List.drop_drop, h, ht,
        List.append_assoc _ rest]
      exact List.drop_left' (List.length_append ..)
    have hstep : scan buf p cl = scan (buf.set (p + line.length) 0) (p + line.length + 2) cl' := by
      rw [scan_step h0 h, hc]
      dsimp only
      rw [if_neg hne, he]
    have h0' : 0 ∉ rest := fun hm => h0 (by rw [ht]; exact List.mem_append_right _ hm)
    have hih := ih h0' hrest
    rw [hstep]
    cases hhd : headerOf rest cl' with
    | error e =>
      rw [hhd] at hih
      exact hih
    | ok hd =>
      rw [hhd] at hih
      obtain ⟨buf', hs, hl, hdrop⟩ := hih
      have hle := (headerOf_suffix hhd).length_le
      have hpos : p + line.length + 2 + (rest.length - hd.rest.length) =
          p + (t.length - hd.rest.length) := by
        rw [ht, List.length_append, List.length_append, show crlf.length = 2 from rfl]
        omega
      rw [hpos] at hs hdrop
      exact ⟨buf', hs, by rw [hl, List.length_set], hdrop⟩

/-! ## One round -/

def dataError : HttpError := httpError 500 ": Data receiving error"

/-- The body, of what follows the header and what comes next. -/
def bodyOf (bsize : ℕ) (c : Conn) (b : Bytes) (cl : UInt32) : Except HttpError Bytes :=
  if cl.toNat ≤ b.length then .ok (cstr (b.take cl.toNat))
  else if bsize ≤ cl.toNat then .error (httpError 500 ": Content-Length too large")
  else
    match recv c (cl.toNat - b.length) with
    | .data t _ => if t.length < cl.toNat - b.length then .error dataError else .ok (cstr (b ++ t))
    | .closed => .error dataError
    | .timeout => .ok (cstr b)

/-- One more piece is read, and no second one. -/
theorem bodyOf_piece {bsize : ℕ} {b t : Bytes} {cl : UInt32} (hcl : b.length < cl.toNat)
    (hb : cl.toNat < bsize) (ht : t ≠ []) (rest : List Bytes) (closed : Bool) :
    bodyOf bsize ⟨t :: rest, closed⟩ b cl =
      if cl.toNat ≤ (b ++ t).length then .ok (cstr ((b ++ t).take cl.toNat)) else .error dataError := by
  have hrecv : ∃ c', recv ⟨t :: rest, closed⟩ (cl.toNat - b.length) =
      .data (t.take (cl.toNat - b.length)) c' := by
    unfold recv
    dsimp only
    rw [if_neg (by simp only [ht, or_false]; omega)]
    exact ⟨_, rfl⟩
  obtain ⟨c', hc'⟩ := hrecv
  unfold bodyOf
  rw [if_neg (not_le.2 hcl), if_neg (not_le.2 hb), hc']
  dsimp only
  rw [List.length_take, List.length_append]
  by_cases hle : cl.toNat ≤ b.length + t.length
  · rw [if_neg (by omega), if_pos hle, List.take_append, List.take_of_length_le (l := b) hcl.le]
  · rw [if_pos (by omega), if_neg hle]

theorem length_store {buf t : Bytes} {i : ℕ} (h : i + t.length ≤ buf.length) :
    (store buf i t).length = buf.length := by
  unfold store
  simp only [List.length_append, List.length_take, List.length_drop]
  omega

theorem recv_length {c c' : Conn} {n : ℕ} {t : Bytes} (h : recv c n = .data t c') :
    t.length ≤ n := by
  unfold recv at h
  split at h
  · split at h <;> cases h
  · split at h
    · cases h
    · cases h
      exact List.length_take_le _ _

/-- The buffer begins with `b` and a zero octet. -/
theorem body_eq {bsize : ℕ} {buf b r : Bytes} (hb : buf = b ++ 0 :: r) (hl : buf.length = bsize)
    (c : Conn) {cl : UInt32} (hne : cl ≠ 0) : body bsize c buf b.length cl = bodyOf bsize c b cl := by
  have hlen : b.length < bsize := by
    rw [← hl, hb, List.length_append, List.length_cons]
    omega
  unfold body bodyOf
  rw [if_neg hne]
  by_cases hcl : cl.toNat ≤ b.length
  · rw [if_neg (not_lt.2 hcl), if_pos hcl, cstr_set (by omega), hb, List.take_append_of_le_length hcl]
  · rw [if_pos (not_le.1 hcl), if_neg hcl]
    split
    · rfl
    · rename_i hbs
      cases hrecv : recv c (cl.toNat - b.length) with
      | data t c' =>
        dsimp only
        split
        · rfl
        · rename_i ht
          have hle := recv_length hrecv
          have htl : cl.toNat = (b ++ t).length := by
            rw [List.length_append]
            omega
          have hstore : store buf b.length t = b ++ t ++ buf.drop (b.length + t.length) := by
            rw [store, hb, List.take_left]
          rw [cstr_set (by rw [length_store (by omega)]; omega), hstore, List.take_left' htl.symm]
      | closed => rfl
      | timeout =>
        obtain ⟨k, hk⟩ : ∃ k, cl.toNat - b.length = k + 1 :=
          ⟨cl.toNat - b.length - 1, by omega⟩
        dsimp only
        rw [cstr_set (by omega), hb, List.take_append, List.take_of_length_le (by omega), hk,
          List.take_succ_cons, cstr_append_zero]

/-- The lines of the text at `p`, and where they lead. -/
theorem again_text (bsize len : ℕ) {p : ℕ} {t junk buf : Bytes} (h0 : 0 ∉ t)
    (h : buf.drop p = t ++ 0 :: junk) (c : Conn) (cl : UInt32) :
    match headerOf t cl with
    | .error e => again bsize c buf len p cl = .ok (.error e)
    | .ok hd => ∃ buf', buf'.length = buf.length ∧
        buf'.drop (p + (t.length - hd.rest.length)) = hd.rest ++ 0 :: junk ∧
        again bsize c buf len p cl =
          if len < p + (t.length - hd.rest.length) then .error .write
          else
            let p := p + (t.length - hd.rest.length)
            let len := len - p
            let buf := (store buf' 0 ((buf'.drop p).take len)).set len 0
            if hd.eoh then .ok (body bsize c buf len hd.contentlength)
            else
              match recv c (bsize - len - 1) with
              | .data t c' =>
                again bsize c' ((store buf len t).set (len + t.length) 0) (len + t.length) p
                  hd.contentlength
              | _ => .ok (.error (httpError 500 ": Data receiving error")) := by
  have hs := scan_text h0 h cl
  cases hhd : headerOf t cl with
  | error e =>
    rw [hhd] at hs
    dsimp only at *
    rw [again, hs]
  | ok hd =>
    rw [hhd] at hs
    obtain ⟨buf', hscan, hl, hdrop⟩ := hs
    refine ⟨buf', hl, hdrop, ?_⟩
    rw [again, hscan]
    dsimp only
    split
    · rfl
    · split
      · rfl
      · split
        · rename_i hrecv
          rw [hrecv]
        · rename_i hno
          cases hrecv : recv c
              (bsize - (len - (p + (t.length - hd.rest.length))) - 1) with
          | data t' c' => exact absurd hrecv (hno t' c')
          | closed => rfl
          | timeout => rfl

/-! ## The first piece -/

/-- A header that the text `d` holds whole, `none` if it does not: the first thing wrong with it, or what
follows it and the length of the body. -/
def wholeHeader (endpoint d : Bytes) : Option (Except HttpError (Bytes × UInt32)) :=
  match cut crlf (cstr d) with
  | none => none
  | some (line, t) =>
    match requestLine endpoint line with
    | .error e => some (.error e)
    | .ok () =>
      match headerOf t 0 with
      | .error e => some (.error e)
      | .ok hd =>
        if hd.eoh then
          if hd.contentlength = 0 then some (.error (httpError 400 ": Invalid Content-Length"))
          else some (.ok (d.drop ((cstr d).length - hd.rest.length), hd.contentlength))
        else none

section
variable {endpoint stale d line t : Bytes} {bsize : ℕ} (hs : stale.length = bsize)
  (hd : d.length < bsize)

include hs hd in
theorem first_buffer : store stale 0 (d ++ [0]) = d ++ 0 :: stale.drop (d.length + 1) ∧
    (store stale 0 (d ++ [0])).length = bsize := by
  refine ⟨?_, ?_⟩
  · unfold store
    rw [List.take_zero, List.nil_append, Nat.zero_add, List.append_assoc, List.length_append]
    rfl
  · rw [length_store (by rw [List.length_append, hs]; exact (Nat.zero_add _).le.trans hd), hs]

include hs hd in
/-- Where the lines of the header begin. -/
theorem first_line (hc : cut crlf (cstr d) = some (line, t)) :
    ∃ junk, ((store stale 0 (d ++ [0])).set line.length 0).drop (line.length + 2) = t ++ 0 :: junk ∧
      0 ∉ t ∧ (cstr d).length = line.length + 2 + t.length := by
  obtain ⟨hbuf, -⟩ := first_buffer hs hd
  have ht := cut_eq hc
  obtain ⟨junk, hj⟩ := exists_cstr (l := d ++ 0 :: stale.drop (d.length + 1))
    (List.mem_append_right _ (.head _))
  rw [cstr_append_zero, ht, List.append_assoc, List.append_assoc] at hj
  refine ⟨junk, ?_, ?_, ?_⟩
  · rw [List.drop_set_of_lt (by omega), hbuf, hj, ← List.drop_drop, List.drop_left]
    rfl
  · intro hm
    exact zero_notMem_cstr d (by rw [ht]; exact List.mem_append_right _ hm)
  · rw [ht, List.length_append, List.length_append]
    rfl

end

theorem store_front {buf b : Bytes} (h : b.length < buf.length) :
    (store buf 0 b).set b.length 0 = b ++ 0 :: buf.drop (b.length + 1) := by
  unfold store
  have hset : (buf.drop b.length).set 0 0 = 0 :: buf.drop (b.length + 1) := by
    rw [List.drop_eq_getElem_cons h, List.set_cons_zero]
  rw [List.take_zero, List.nil_append, Nat.zero_add, List.set_append_right _ _ le_rfl, Nat.sub_self,
    hset]

theorem drop_suffix {t rest junk : Bytes} (h : rest <:+ t) :
    (t ++ 0 :: junk).drop (t.length - rest.length) = rest ++ 0 :: junk := by
  obtain ⟨u, rfl⟩ := h
  rw [List.length_append, Nat.add_sub_cancel, List.append_assoc, List.drop_left]

theorem parse_line {stale d line t : Bytes} {bsize : ℕ} (hs : stale.length = bsize)
    (hl : d.length < bsize) (hc : cut crlf (cstr d) = some (line, t)) (endpoint : Bytes) (c : Conn) :
    wsd_parse_http_header endpoint bsize c (store stale 0 (d ++ [0])) d.length =
      match requestLine endpoint line with
      | .error e => .ok (.error e)
      | .ok () => again bsize c ((store stale 0 (d ++ [0])).set line.length 0) d.length
        (line.length + 2) 0 := by
  have hstr : cstr (store stale 0 (d ++ [0])) = cstr d := by
    rw [(first_buffer hs hl).1, cstr_append_zero]
  unfold wsd_parse_http_header
  cases hr : requestLine endpoint line with
  | error e => simp only [hstr, hc, hr]
  | ok u => simp only [hstr, hc, hr]

/-- The first round: `k` octets are read, and the others stand at the front of the buffer. -/
theorem first_round {endpoint stale d line t : Bytes} {bsize : ℕ} {hd : Head}
    (hs : stale.length = bsize) (hl : d.length < bsize) (hc : cut crlf (cstr d) = some (line, t))
    (hr : requestLine endpoint line = .ok ()) (hh : headerOf t 0 = .ok hd) (c : Conn) :
    let k := (cstr d).length - hd.rest.length
    let b := d.drop k
    b.length + k = d.length ∧ ∃ buf r junk, buf.length = bsize ∧ buf = b ++ 0 :: r ∧
      (b.length + 1 ≤ k → buf.drop k = hd.rest ++ 0 :: junk) ∧
      wsd_parse_http_header endpoint bsize c (store stale 0 (d ++ [0])) d.length =
        if hd.eoh then .ok (body bsize c buf b.length hd.contentlength)
        else
          match recv c (bsize - b.length - 1) with
          | .data t c' =>
            again bsize c' ((store buf b.length t).set (b.length + t.length) 0) (b.length + t.length) k
              hd.contentlength
          | _ => .ok (.error (httpError 500 ": Data receiving error")) := by
  intro k b
  obtain ⟨hbuf, hlen⟩ := first_buffer hs hl
  obtain ⟨junk, hdrop, h0, hdl⟩ := first_line hs hl hc
  have hle := (headerOf_suffix hh).length_le
  have hcd : (cstr d).length ≤ d.length := (List.takeWhile_prefix _).length_le
  have hk : line.length + 2 + (t.length - hd.rest.length) = k := by omega
  have hkd : k ≤ d.length := by omega
  have hb : d.length - k = b.length := (List.length_drop ..).symm
  have hag := again_text bsize d.length h0 hdrop c 0
  rw [hh] at hag
  dsimp only at hag
  rw [hk] at hag
  obtain ⟨buf, hbl, hbd, hag⟩ := hag
  rw [List.length_set, hlen] at hbl
  -- what is read stays, so the rest of the text is the rest of the piece
  have hrest : b ++ 0 :: stale.drop (d.length + 1) = hd.rest ++ 0 :: junk := by
    rw [← drop_suffix (headerOf_suffix hh), ← hdrop, List.drop_drop, hk,
      List.drop_set_of_lt (by omega), hbuf, List.drop_append_of_le_length hkd]
  have htake : (buf.drop k).take b.length = b := by
    rw [hbd, ← hrest]
    exact List.take_left
  have hfront := store_front (show b.length < buf.length by omega)
  rw [hb, htake, hfront, if_neg (not_lt.2 hkd)] at hag
  refine ⟨by omega, _, buf.drop (b.length + 1), junk, ?_, rfl, ?_, ?_⟩
  · have hrl : (buf.drop (b.length + 1)).length = buf.length - (b.length + 1) := List.length_drop ..
    rw [List.length_append, List.length_cons, hrl]
    omega
  · intro hlt
    obtain ⟨j, hj⟩ := Nat.exists_eq_add_of_le hlt
    rw [← hbd, hj, List.append_cons, ← List.drop_drop, List.drop_left' (by simp), List.drop_drop]
  · rw [parse_line hs hl hc, hr]
    exact hag

/-- With the header in the first piece, the outcome is that of the text. -/
theorem http_whole_header_text {stale d : Bytes} {bsize : ℕ} (hs : stale.length = bsize)
    (hl : d.length < bsize) {endpoint : Bytes} (c : Conn) {o : Except HttpError (Bytes × UInt32)}
    (ho : wholeHeader endpoint d = some o) :
    wsd_parse_http_header endpoint bsize c (store stale 0 (d ++ [0])) d.length =
      .ok (o.bind fun (b, cl) => bodyOf bsize c b cl) := by
  unfold wholeHeader at ho
  cases hc : cut crlf (cstr d) with
  | none =>
    rw [hc] at ho
    cases ho
  | some r =>
    obtain ⟨line, t⟩ := r
    rw [hc] at ho
    dsimp only at ho
    cases hr : requestLine endpoint line with
    | error e =>
      rw [hr] at ho
      cases ho
      rw [parse_line hs hl hc, hr]
      rfl
    | ok u =>
      rw [hr] at ho
      dsimp only at ho
      cases hh : headerOf t 0 with
      | error e =>
        rw [hh] at ho
        cases ho
        obtain ⟨junk, hdrop, h0, -⟩ := first_line hs hl hc
        have hag := again_text bsize d.length h0 hdrop c 0
        rw [hh] at hag
        rw [parse_line hs hl hc, hr]
        exact hag
      | ok hd =>
        rw [hh] at ho
        dsimp only at ho
        split at ho
        · rename_i heoh
          obtain ⟨-, buf, r, junk, hbl, hbuf, -, hpar⟩ := first_round hs hl hc hr hh c
          rw [hpar, if_pos heoh]
          split at ho
          · rename_i hcl
            cases ho
            unfold body
            rw [if_pos hcl]
            rfl
          · rename_i hcl
            cases ho
            rw [body_eq hbuf hbl c hcl]
            rfl
        · cases ho

/-! ## The second piece -/

/-- The second piece is put behind what is left of the first one. -/
theorem second_buffer {buf b r t : Bytes} {bsize : ℕ} (hb : buf = b ++ 0 :: r)
    (hl : buf.length = bsize) (hfit : b.length + t.length < bsize) :
    let buf' := (store buf b.length t).set (b.length + t.length) 0
    buf'[b.length + t.length]? = some 0 ∧
      ∀ k, b.length + t.length < k → buf'.drop k = buf.drop k := by
  intro buf'
  have hlen : (store buf b.length t).length = bsize := by rw [length_store (by omega), hl]
  refine ⟨List.getElem?_set_self (by omega), fun k hk => ?_⟩
  have hfront : store buf b.length t = b ++ t ++ buf.drop (b.length + t.length) := by
    rw [store, hb, List.take_left]
  obtain ⟨j, rfl⟩ := Nat.exists_eq_add_of_lt hk
  simp only [buf']
  rw [List.drop_set_of_lt (by omega), hfront, Nat.add_assoc, ← List.drop_drop,
    List.drop_left' (List.length_append ..), List.drop_drop]

theorem wholeHeader_eq_none_iff {endpoint d : Bytes} :
    wholeHeader endpoint d = none ↔
      cut crlf (cstr d) = none ∨ ∃ line rest hd, cut crlf (cstr d) = some (line, rest) ∧
        requestLine endpoint line = .ok () ∧ headerOf rest 0 = .ok hd ∧ hd.eoh = false := by
  unfold wholeHeader
  cases hc : cut crlf (cstr d) with
  | none => simp
  | some r =>
    obtain ⟨line, rest⟩ := r
    dsimp only
    cases hr : requestLine endpoint line with
    | error e => simp [hr]
    | ok u =>
      dsimp only
      cases hh : headerOf rest 0 with
      | error e => simp [hh]
      | ok hd =>
        by_cases hcl : hd.contentlength = 0 <;> cases he : hd.eoh <;> simp [hr, hh, he, hcl]

/-- The second round, where the rest of the first piece is no line. -/
theorem second_round (bsize : ℕ) {buf rest junk : Bytes} {len k : ℕ} (h0 : buf[len]? = some 0)
    (hz : 0 ∉ rest) (hrest : cut crlf rest = none)
    (hk : len < k → buf.drop k = rest ++ 0 :: junk) (closed : Bool) (cl : UInt32) :
    (∃ f, again bsize ⟨[], closed⟩ buf len k cl = .error f) ↔ len < k := by
  by_cases hlt : len < k
  · have hag := again_text bsize len hz (hk hlt) ⟨[], closed⟩ cl
    rw [headerOf_stop hrest] at hag
    obtain ⟨buf', -, -, hag⟩ := hag
    dsimp only at hag
    rw [if_pos (by omega)] at hag
    exact iff_of_true ⟨_, hag⟩ hlt
  · have hget : (buf.drop k)[len - k]? = some 0 := by
      rw [List.getElem?_drop, Nat.add_sub_cancel' (not_lt.1 hlt), h0]
    obtain ⟨junk', hs⟩ := exists_cstr (List.mem_of_getElem? hget)
    have hsl := length_cstr_le hget
    have hag := again_text bsize len (zero_notMem_cstr _) hs ⟨[], closed⟩ cl
    refine iff_of_false (fun ⟨f, hf⟩ => ?_) hlt
    cases hhd : headerOf (cstr (buf.drop k)) cl with
    | error e =>
      rw [hhd] at hag
      rw [hag] at hf
      cases hf
    | ok hd =>
      rw [hhd] at hag
      obtain ⟨buf', -, -, hag⟩ := hag
      dsimp only at hag
      rw [hag, if_neg (by omega)] at hf
      split at hf
      · cases hf
      · have hend : ∀ n t c', recv ⟨[], closed⟩ n ≠ .data t c' := by
          intro n t c' h
          unfold recv at h
          dsimp only at h
          split at h <;> cases h
        split at hf
        · rename_i hrecv
          exact hend _ _ _ hrecv
        · cases hf

/-- **A header in two pieces is a fault just when the first line is not whole in the first piece, or
when what is left of the first piece and the second one are shorter than what was read before.** -/
theorem http_two_pieces {stale d t : Bytes} {bsize : ℕ} (hs : stale.length = bsize) (ht : t ≠ [])
    (hfit : d.length + t.length < bsize) (endpoint : Bytes) (closed : Bool) :
    (∃ f, wsd_parse_http_header endpoint bsize ⟨[t], closed⟩ (store stale 0 (d ++ [0])) d.length =
      .error f) ↔
    cut crlf (cstr d) = none ∨ ∃ line rest hd, cut crlf (cstr d) = some (line, rest) ∧
      requestLine endpoint line = .ok () ∧ headerOf rest 0 = .ok hd ∧ hd.eoh = false ∧
      d.length + t.length < 2 * ((cstr d).length - hd.rest.length) := by
  have hl : d.length < bsize := by omega
  cases hw : wholeHeader endpoint d with
  | some o =>
    have hne : wholeHeader endpoint d ≠ none := by simp [hw]
    rw [http_whole_header_text hs hl _ hw]
    refine iff_of_false (fun ⟨f, hf⟩ => by cases hf) fun hor => hne (wholeHeader_eq_none_iff.2 ?_)
    exact hor.imp_right fun ⟨line, rest, hd, hc, hr, hh, he, _⟩ => ⟨line, rest, hd, hc, hr, hh, he⟩
  | none =>
    rcases wholeHeader_eq_none_iff.1 hw with hc | ⟨line, rest, hd, hc, hr, hh, he⟩
    · refine iff_of_true ⟨.null, ?_⟩ (.inl hc)
      unfold wsd_parse_http_header
      rw [show cstr (store stale 0 (d ++ [0])) = cstr d by
        rw [(first_buffer hs hl).1, cstr_append_zero], hc]
    · obtain ⟨hbk, buf, r, junk, hbl, hbuf, hdrop, hpar⟩ := first_round hs hl hc hr hh ⟨[t], closed⟩
      generalize hb : d.drop ((cstr d).length - hd.rest.length) = b at *
      have htl := List.length_pos_iff.2 ht
      have hrecv : recv ⟨[t], closed⟩ (bsize - b.length - 1) = .data t ⟨[], closed⟩ := by
        unfold recv
        dsimp only
        rw [if_neg (by simp only [ht, or_false]; omega), if_pos (by omega),
          List.take_of_length_le (by omega)]
      obtain ⟨hget, hsame⟩ := second_buffer hbuf hbl (t := t) (by omega)
      have hz : 0 ∉ hd.rest := by
        obtain ⟨-, -, h0, -⟩ := first_line hs hl hc
        exact fun hm => h0 ((headerOf_suffix hh).subset hm)
      have hround := second_round bsize hget hz (headerOf_unfinished hh he)
        (fun hk => (hsame _ hk).trans (hdrop (by omega))) closed hd.contentlength
      rw [hpar, he, hrecv]
      refine hround.trans ⟨fun hlt => .inr ⟨line, rest, hd, hc, hr, hh, he, by omega⟩, ?_⟩
      rintro (hn | ⟨line', rest', hd', hc', -, hh', -, hlt⟩)
      · rw [hc] at hn
        cases hn
      · rw [hc] at hc'
        cases hc'
        rw [hh] at hh'
        cases hh'
        omega

/-- The empty line comes alone, behind a line that was read. -/
theorem http_two_pieces_end_of_header :
    ∃ f, wsd_parse_http_header (bytes "0a") wsdBufSize ⟨[crlf], false⟩
      (store (List.replicate wsdBufSize 0) 0 (bytes "POST /0a HTTP/1.1\r\nHost: nas\r\n" ++ [0])) 30 =
      .error f := by
  have hh : headerOf (bytes "Host: nas\r\n") 0 = .ok ⟨[], 0, false⟩ := by
    have hc : cut crlf (bytes "Host: nas\r\n") = some (bytes "Host: nas", []) := by decide
    rw [headerOf_line hc (by decide) (show headerLine 0 _ = .ok 0 by decide), headerOf_stop rfl]
  exact (http_two_pieces List.length_replicate (by decide) (by decide) (bytes "0a") false).2
    (.inr ⟨bytes "POST /0a HTTP/1.1", _, _, by decide, by decide, hh, rfl, by decide⟩)

/-! ## One connection -/

/-- What is sent back, by what the request comes to: its first fault or its body. -/
def streamReply (h : Host) (ifs : List Ifaddr) (sa : Addr) (date : Tm) (n : Stamp) :
    Except HttpError Bytes → Except Fault (List Bytes)
  | .error e => .ok [send_http_resp_header date e.status 0, soap_fault e]
  | .ok xml => .ok (wsd_respond h ifs sa xml date n)

theorem wsd_recv_stream_eq {stale d : Bytes} (hs : stale.length = wsdBufSize) (hne : d ≠ [])
    (hl : d.length < wsdBufSize) (hpost : bytes "POST " <+: cstr d) (h : Host) (ifs : List Ifaddr)
    (sa : Addr) (date : Tm) (n : Stamp) {o : Except HttpError (Bytes × UInt32)}
    (ho : wholeHeader h.wsd_endpoint d = some o) (rest : List Bytes) (closed : Bool) :
    wsd_recv_stream h ifs sa stale ⟨d :: rest, closed⟩ date n =
      streamReply h ifs sa date n (o.bind fun q => bodyOf wsdBufSize ⟨rest, closed⟩ q.1 q.2) := by
  have hrecv : recv ⟨d :: rest, closed⟩ (wsdBufSize - 1) = .data d ⟨rest, closed⟩ := by
    unfold recv
    dsimp only
    rw [if_neg (by simp [hne, wsdBufSize]), if_pos (by omega), List.take_of_length_le (by omega)]
  have hbuf : cstr (store stale 0 (d ++ [0])) = cstr d := by
    rw [(first_buffer hs hl).1, cstr_append_zero]
  unfold wsd_recv_stream
  rw [hrecv]
  dsimp only
  rw [hbuf, if_pos hpost, http_whole_header_text hs hl _ ho]
  cases o.bind fun q => bodyOf wsdBufSize ⟨rest, closed⟩ q.1 q.2 with
  | error e => rfl
  | ok xml => rfl

/-- **A request over HTTP with its header in the first piece `d` is answered by its text.** What is
wrong with the header is reported. Of the body, what `d` holds is used if it is enough; else one more
piece is read: if that completes it, it is used, and if it does not, that is an error, whatever comes
after it, and so is the end of the connection; if nothing comes, what `d` holds is used. No memory is
touched that should not be, and nothing depends on what the stack held. -/
theorem stream_whole_header {stale d : Bytes} (hs : stale.length = wsdBufSize) (hne : d ≠ [])
    (hl : d.length < wsdBufSize) (hpost : bytes "POST " <+: cstr d) (h : Host) (ifs : List Ifaddr)
    (sa : Addr) (date : Tm) (n : Stamp) {o : Except HttpError (Bytes × UInt32)}
    (ho : wholeHeader h.wsd_endpoint d = some o) :
    let run (rest : List Bytes) (closed : Bool) :=
      wsd_recv_stream h ifs sa stale ⟨d :: rest, closed⟩ date n
    let fails (e : HttpError) : Except Fault (List Bytes) :=
      .ok [send_http_resp_header date e.status 0, soap_fault e]
    let answers (xml : Bytes) : Except Fault (List Bytes) :=
      .ok (wsd_respond h ifs sa (cstr xml) date n)
    match o with
    | .error e => ∀ rest closed, run rest closed = fails e
    | .ok (b, cl) =>
      (cl.toNat ≤ b.length → ∀ rest closed, run rest closed = answers (b.take cl.toNat)) ∧
      (b.length < cl.toNat → wsdBufSize ≤ cl.toNat → ∀ rest closed,
        run rest closed = fails (httpError 500 ": Content-Length too large")) ∧
      (b.length < cl.toNat → cl.toNat < wsdBufSize →
        (∀ t rest closed, t ≠ [] → run (t :: rest) closed =
          if cl.toNat ≤ (b ++ t).length then answers ((b ++ t).take cl.toNat) else fails dataError) ∧
        run [] true = fails dataError ∧ run [] false = answers b) := by
  intro run fails answers
  have hrun := wsd_recv_stream_eq hs hne hl hpost h ifs sa date n ho
  cases o with
  | error e => exact hrun
  | ok q =>
    obtain ⟨b, cl⟩ := q
    have hrun : ∀ rest closed, run rest closed =
        streamReply h ifs sa date n (bodyOf wsdBufSize ⟨rest, closed⟩ b cl) := hrun
    refine ⟨fun hcl rest closed => ?_, fun hcl hbs rest closed => ?_, fun hcl hbs => ⟨?_, ?_, ?_⟩⟩
    · rw [hrun, bodyOf, if_pos hcl]
      rfl
    · rw [hrun, bodyOf, if_neg (not_le.2 hcl), if_pos hbs]
      rfl
    · intro t rest closed ht
      rw [hrun, bodyOf_piece hcl hbs ht]
      split_ifs <;> rfl
    · rw [hrun, bodyOf, if_neg (not_le.2 hcl), if_neg (not_le.2 hbs)]
      rfl
    · rw [hrun, bodyOf, if_neg (not_le.2 hcl), if_neg (not_le.2 hbs)]
      rfl

/-- A body in the first piece and one more, and in the first piece and two more. -/
theorem stream_whole_header_body :
    let run (rest : List Bytes) := wsd_recv_stream someHost eth0 neighbour (List.replicate wsdBufSize 0)
      ⟨(bytes "POST /" ++ someHost.wsd_endpoint ++ bytes " HTTP/1.1\r\nContent-Length: 3\r\n\r\na") ::
        rest, false⟩ ⟨0, 1, 0, 2024, 0, 0, 0⟩ ⟨⟨1, 1, 1, 1, 1, 1⟩, 1⟩
    run [bytes "bc"] = .ok (wsd_respond someHost eth0 neighbour (bytes "abc")
      ⟨0, 1, 0, 2024, 0, 0, 0⟩ ⟨⟨1, 1, 1, 1, 1, 1⟩, 1⟩) ∧
    run [bytes "b", bytes "c"] =
      .ok [send_http_resp_header ⟨0, 1, 0, 2024, 0, 0, 0⟩ 500 0, soap_fault dataError] := by
  have hh : headerOf (bytes "Content-Length: 3\r\n\r\na") 0 = .ok ⟨bytes "a", 3, true⟩ := by
    have hc : cut crlf (bytes "Content-Length: 3\r\n\r\na") =
      some (bytes "Content-Length: 3", bytes "\r\na") := by decide
    rw [headerOf_line hc (by decide) (show headerLine 0 _ = .ok 3 by decide),
      headerOf_end (show cut crlf _ = some ([], bytes "a") by decide)]
  have hc : cut crlf (cstr (bytes "POST /" ++ someHost.wsd_endpoint ++
      bytes " HTTP/1.1\r\nContent-Length: 3\r\n\r\na")) =
      some (bytes "POST /" ++ someHost.wsd_endpoint ++ bytes " HTTP/1.1",
        bytes "Content-Length: 3\r\n\r\na") := by decide +kernel
  have hr : requestLine someHost.wsd_endpoint
      (bytes "POST /" ++ someHost.wsd_endpoint ++ bytes " HTTP/1.1") = .ok () := by decide +kernel
  have ho : wholeHeader someHost.wsd_endpoint
      (bytes "POST /" ++ someHost.wsd_endpoint ++ bytes " HTTP/1.1\r\nContent-Length: 3\r\n\r\na") =
      some (.ok (bytes "a", 3)) := by
    unfold wholeHeader
    rw [hc]
    dsimp only
    rw [hr]
    dsimp only
    rw [hh]
    decide +kernel
  intro run
  obtain ⟨-, -, hpieces⟩ := stream_whole_header (List.length_replicate (n := wsdBufSize))
    (by decide +kernel) (by decide +kernel) (by decide +kernel) someHost eth0 neighbour
    ⟨0, 1, 0, 2024, 0, 0, 0⟩ ⟨⟨1, 1, 1, 1, 1, 1⟩, 1⟩ ho
  obtain ⟨hpiece, -⟩ := hpieces (by decide) (by decide)
  exact ⟨hpiece (bytes "bc") [] false (by decide), hpiece (bytes "b") [bytes "c"] false (by decide)⟩

end Wsdd
