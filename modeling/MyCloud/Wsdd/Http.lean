import MyCloud.Wsdd.Soap

/-!
# `wsd.c`: requests over HTTP

`wsd_parse_http_header` reads the header of a request that comes in pieces, in the buffer of `wsd_recv`.
The buffer is moved and refilled in place, and `p` is the index at which the next line is looked for.
-/

set_option autoImplicit false

namespace Wsdd

open Shell Wire

/-! ## The connection -/

/-- What the peer sends, piece by piece, and whether it closes the connection then or falls silent. -/
structure Conn where
  segments : List Bytes
  closed : Bool

inductive RecvResult
  | data (t : Bytes) (c : Conn)
  /-- 0. -/
  | closed
  /-- -1: nothing in the time of `SO_RCVTIMEO`. -/
  | timeout

/-- `recv` with room for `n` octets. -/
def recv (c : Conn) (n : ℕ) : RecvResult :=
  match c.segments with
  | [] => if c.closed then .closed else .timeout
  | s :: t =>
    if n = 0 ∨ s = [] then .closed
    else .data (s.take n) ⟨if s.length ≤ n then t else s.drop n :: t, c.closed⟩

/-! ## The buffer -/

/-- The octets `t` at `buf + i`. -/
def store (buf : Bytes) (i : ℕ) (t : Bytes) : Bytes := buf.take i ++ t ++ buf.drop (i + t.length)

/-! ## Lines -/

/-- A status and `ep->errstr`. -/
structure HttpError where
  status : ℕ
  errstr : Bytes
  deriving DecidableEq

def httpError (status : ℕ) (text : String) : HttpError :=
  ⟨status, bytes "wsd_pars_http_header" ++ bytes text⟩

/-- The request line. -/
def requestLine (endpoint line : Bytes) : Except HttpError Unit :=
  if ¬ bytes "POST /" <+: line then .error (httpError 405 ": Only POST method supported")
  else if ¬ endpoint <+: line.drop 6 then .error (httpError 404 ": Invalid endpoint UUID")
  else if ¬ bytes " HTTP/" <+: line.drop (6 + endpoint.length) then
    .error (httpError 405 ": Must be HTTP/1.0 and up")
  else .ok ()

/-- `HEADER_IS`: what follows the name, which is compared without case. -/
def headerIs (line name : Bytes) : Option Bytes :=
  if name.map toLower <+: line.map toLower then some (line.drop name.length) else none

/-- `atoi`, as a `size_t`. -/
def atoi (t : Bytes) : UInt32 :=
  let t := t.dropWhile isspace
  let sign := t.takeWhile fun c => c = dash ∨ c = '+'.toUInt8
  let digits := (t.drop (min 1 sign.length)).takeWhile fun c => '0'.toUInt8 ≤ c ∧ c ≤ '9'.toUInt8
  let n := digits.foldl (fun n c => 10 * n + (c.toNat - 48)) 0
  if sign.head? = some dash then - .ofNat (min n 2147483648) else .ofNat (min n 2147483647)

/-- A header line, and `contentlength` after it. -/
def headerLine (contentlength : UInt32) (line : Bytes) : Except HttpError UInt32 :=
  match headerIs line (bytes "Content-Type: ") with
  | some val =>
    if val ≠ bytes "application/soap+xml" then .error (httpError 400 ": Unsupported Content-Type")
    else .ok contentlength
  | none =>
    match headerIs line (bytes "Content-Length: ") with
    | some val =>
      if atoi val = 0 then .error (httpError 400 ": Invalid Content-Length") else .ok (atoi val)
    | none => .ok contentlength

/-! ## The header -/

/-- Where the loop over the lines stops: the buffer, `p`, `contentlength` and `eoh`. -/
structure Scanned where
  buf : Bytes
  p : ℕ
  contentlength : UInt32
  eoh : Bool

theorem cut_bound {buf line rest : Bytes} {p : ℕ}
    (h : cut crlf (cstr (buf.drop p)) = some (line, rest)) :
    p + line.length + 2 ≤ buf.length := by
  have hle := (List.takeWhile_prefix (l := buf.drop p) (fun c => decide (c ≠ 0))).length_le
  have heq : buf.drop p ≠ [] → (cstr (buf.drop p)).length = line.length + 2 + rest.length := by
    intro _
    rw [cut_eq h, List.length_append, List.length_append]
    rfl
  rw [List.length_drop] at hle
  by_cases h0 : buf.drop p = []
  · rw [h0] at h
    cases h
  · have := heq h0
    unfold cstr at this
    omega

/-- The loop over the lines. A line is ended in place. -/
def scan (buf : Bytes) (p : ℕ) (contentlength : UInt32) :
    Except Fault (Except HttpError Scanned) :=
  if 0 ∉ buf.drop p then .error .read
  else
    match _h : cut crlf (cstr (buf.drop p)) with
    | none => .ok (.ok ⟨buf, p, contentlength, false⟩)
    | some (line, _) =>
      if line = [] then .ok (.ok ⟨buf, p + 2, contentlength, true⟩)
      else
        match headerLine contentlength line with
        | .error e => .ok (.error e)
        | .ok contentlength =>
          scan (buf.set (p + line.length) 0) (p + line.length + 2) contentlength
termination_by buf.length - p
decreasing_by
  have := cut_bound _h
  rw [List.length_set]
  omega

/-- The end of the header is read: the body is completed and ended. -/
def body (bsize : ℕ) (c : Conn) (buf : Bytes) (len : ℕ) (contentlength : UInt32) :
    Except HttpError Bytes :=
  if contentlength = 0 then .error (httpError 400 ": Invalid Content-Length")
  else if len < contentlength.toNat then
    if bsize ≤ contentlength.toNat then .error (httpError 500 ": Content-Length too large")
    else
      match recv c (contentlength.toNat - len) with
      | .data t _ =>
        if t.length < contentlength.toNat - len then .error (httpError 500 ": Data receiving error")
        else .ok (cstr ((store buf len t).set contentlength.toNat 0))
      | .closed => .error (httpError 500 ": Data receiving error")
      -- `len2` is -1, and as an unsigned number it is not less
      | .timeout => .ok (cstr (buf.set contentlength.toNat 0))
  else .ok (cstr (buf.set contentlength.toNat 0))

def Conn.size (c : Conn) : ℕ := c.segments.flatten.length

theorem recv_size {c c' : Conn} {n : ℕ} {t : Bytes} (h : recv c n = .data t c') :
    c'.size < c.size := by
  unfold recv at h
  split at h
  · split at h <;> cases h
  · rename_i s t' hs
    split at h
    · cases h
    · rename_i hn
      cases h
      have hpos := List.length_pos_iff.2 (not_or.1 hn).2
      have hn0 : 0 < n := Nat.pos_of_ne_zero (not_or.1 hn).1
      unfold Conn.size
      dsimp only
      rw [hs]
      split
      · simp only [List.flatten_cons, List.length_append]
        omega
      · simp only [List.flatten_cons, List.length_append, List.length_drop]
        omega

/-- `again`: the lines from `p` on, and what follows them is moved to the front. `p` itself is not set
back when more is read. The length that is moved is unsigned: it wraps where `p` is behind `len`. -/
def again (bsize : ℕ) (c : Conn) (buf : Bytes) (len p : ℕ) (contentlength : UInt32) :
    Except Fault (Except HttpError Bytes) :=
  match scan buf p contentlength with
  | .error f => .error f
  | .ok (.error e) => .ok (.error e)
  | .ok (.ok s) =>
    if len < s.p then .error .write
    else
      let len := len - s.p
      let buf := (store s.buf 0 ((s.buf.drop s.p).take len)).set len 0
      if s.eoh then .ok (body bsize c buf len s.contentlength)
      else
        match _h : recv c (bsize - len - 1) with
        | .data t c' =>
          again bsize c' ((store buf len t).set (len + t.length) 0) (len + t.length) s.p
            s.contentlength
        | _ => .ok (.error (httpError 500 ": Data receiving error"))
termination_by c.size
decreasing_by exact recv_size _h

/-- `wsd_parse_http_header`: the body, or the error. -/
def wsd_parse_http_header (endpoint : Bytes) (bsize : ℕ) (c : Conn) (buf : Bytes) (len : ℕ) :
    Except Fault (Except HttpError Bytes) :=
  match cut crlf (cstr buf) with
  | none => .error .null
  | some (line, _) =>
    match requestLine endpoint line with
    | .error e => .ok (.error e)
    | .ok () => again bsize c (buf.set line.length 0) len (line.length + 2) 0

/-! ## One connection -/

def soap_fault (e : HttpError) : Bytes :=
  [bytes "<?xml version=\"1.0\" encoding=\"utf-8\"?>", bytes "<soap:Envelope ",
    bytes "xmlns:soap=\"http://www.w3.org/2003/05/soap-envelope\" ",
    bytes "xmlns:wsa=\"http://schemas.xmlsoap.org/ws/2004/08/addressing\">",
    bytes "<soap:Header>", bytes "<wsa:Action>",
    bytes "http://schemas.xmlsoap.org/ws/2004/09/transfer/fault", bytes "</wsa:Action>",
    bytes "</soap:Header>", bytes "<soap:Body>", bytes "<soap:Fault>", bytes "<soap:Code>",
    bytes "<soap:Value>", decimal e.status, bytes "</soap:Value>", bytes "<soap:Subcode>",
    bytes "<soap:Value>", decimal 0, bytes "</soap:Value>", bytes "<soap:Subcode>",
    bytes "<soap:Value>", decimal 0, bytes "</soap:Value>", bytes "</soap:Subcode>",
    bytes "</soap:Subcode>", bytes "</soap:Code>", bytes "<soap:Reason>",
    bytes "<soap:Text xml:lang=\"en\">", e.errstr, bytes "</soap:Text>", bytes "</soap:Reason>",
    bytes "<soap:Detail>", e.errstr, bytes "</soap:Detail>", bytes "</soap:Fault>",
    bytes "</soap:Body>", bytes "</soap:Envelope>"].flatten

/-- `wsd_recv` on a connection: what is sent. The buffer holds the first piece, a zero octet, and what
the stack held before. -/
def wsd_recv_stream (h : Host) (ifs : List Ifaddr) (sa : Addr) (stale : Bytes) (c : Conn) (date : Tm)
    (n : Stamp) : Except Fault (List Bytes) :=
  match recv c (wsdBufSize - 1) with
  | .data t c =>
    let buf := store stale 0 (t ++ [0])
    if bytes "POST " <+: cstr buf then
      match wsd_parse_http_header h.wsd_endpoint wsdBufSize c buf t.length with
      | .error f => .error f
      | .ok (.error e) => .ok [send_http_resp_header date e.status 0, soap_fault e]
      | .ok (.ok xml) => .ok (wsd_respond h ifs sa xml date n)
    else .ok (wsd_respond h ifs sa (cstr buf) date n)
  | _ => .ok []

end Wsdd
