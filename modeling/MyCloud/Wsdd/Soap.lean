import MyCloud.Wire.Search
import MyCloud.Wsdd.Boot

/-!
# `wsd.c`: SOAP messages

Reading a request (`wsd_req_parse`), writing a message (`soap_msg` and the bodies), and what
`wsd_recv` sends for a request.
-/

set_option autoImplicit false

namespace Wsdd

open Shell Wire

/-! ## Requests -/

def less : UInt8 := '<'.toUInt8

/-- The text between the first opening tag and the first closing tag behind it, for the first pair
of tags where this is without markup. -/
def wsd_tag_find (xml : Bytes) : List (Bytes × Bytes) → Option Bytes
  | [] => none
  | (opening, closing) :: tags =>
    match cut opening xml with
    | none => wsd_tag_find xml tags
    | some (_, p) =>
      match cut closing (p.dropWhile isspace) with
      | none => wsd_tag_find xml tags
      | some (val, _) =>
        if less ∈ val then wsd_tag_find xml tags else some (val.rdropWhile isspace)

def action_tag : List (Bytes × Bytes) := [
  (bytes "<wsa:Action>", bytes "</wsa:Action>"),
  (bytes "<wsa:Action SOAP-ENV:mustUnderstand=\"true\">", bytes "</wsa:Action>")]

def msgid_tag : List (Bytes × Bytes) := [
  (bytes "<wsa:MessageID>", bytes "</wsa:MessageID>"),
  (bytes "<wsa:MessageID SOAP-ENV:mustUnderstand=\"true\">", bytes "</wsa:MessageID>")]

structure ReqInfo where
  action : Bytes
  msgid : Bytes
  deriving DecidableEq

def wsd_req_parse (xml : Bytes) : Option ReqInfo := do
  let action ← wsd_tag_find xml action_tag
  let msgid ← wsd_tag_find xml msgid_tag
  return ⟨action, msgid⟩

/-! ## Actions -/

def WSD_ACT_HELLO : Bytes := bytes "http://schemas.xmlsoap.org/ws/2005/04/discovery/Hello"

def WSD_ACT_BYE : Bytes := bytes "http://schemas.xmlsoap.org/ws/2005/04/discovery/Bye"

def WSD_ACT_PROBE : Bytes := bytes "http://schemas.xmlsoap.org/ws/2005/04/discovery/Probe"

def WSD_ACT_PROBEMATCH : Bytes :=
  bytes "http://schemas.xmlsoap.org/ws/2005/04/discovery/ProbeMatches"

def WSD_ACT_RESOLVE : Bytes := bytes "http://schemas.xmlsoap.org/ws/2005/04/discovery/Resolve"

def WSD_ACT_RESOLVEMATCH : Bytes :=
  bytes "http://schemas.xmlsoap.org/ws/2005/04/discovery/ResolveMatches"

def WXT_ACT_GET : Bytes := bytes "http://schemas.xmlsoap.org/ws/2004/09/transfer/Get"

def WXT_ACT_GETRESPONSE : Bytes :=
  bytes "http://schemas.xmlsoap.org/ws/2004/09/transfer/GetResponse"

def WSD_TO_DISCOVERY : Bytes := bytes "urn:schemas-xmlsoap-org:ws:2005:04:discovery"

def WSD_TO_ANONYMOUS : Bytes :=
  bytes "http://schemas.xmlsoap.org/ws/2004/08/addressing/role/anonymous"

inductive WsdAction
  | none | hello | bye | probe | probematch | resolve | resolvematch | get | getresponse
  deriving DecidableEq

def wsd_action_id (info : Option ReqInfo) : WsdAction :=
  match info with
  | .none => .none
  | some info =>
    if info.action = WSD_ACT_HELLO then .hello
    else if info.action = WSD_ACT_BYE then .bye
    else if info.action = WSD_ACT_PROBE then .probe
    else if info.action = WSD_ACT_PROBEMATCH then .probematch
    else if info.action = WSD_ACT_RESOLVE then .resolve
    else if info.action = WSD_ACT_RESOLVEMATCH then .resolvematch
    else if info.action = WXT_ACT_GET then .get
    else if info.action = WXT_ACT_GETRESPONSE then .getresponse
    else .none

/-! ## Messages -/

/-- `%u`. -/
def decimal (n : ℕ) : Bytes := (Nat.toDigits 10 n).map Char.toUInt8

/-- The variables of `wsd.c` and of the endpoint that go into messages. -/
structure Host where
  wsd_instance : ℕ
  wsd_sequence : Bytes
  sequence_text : less ∉ wsd_sequence
  wsd_endpoint : Bytes
  hostname : Bytes
  netbiosname : Bytes
  workgroup : Bytes
  bootinfo : List BootParam
  port : UInt16

/-- The text of `soap_msg_templ` before the first `%s`. -/
def soapHead : Bytes :=
  bytes "<?xml version=\"1.0\" encoding=\"utf-8\"?>" ++
  bytes "<soap:Envelope " ++
  bytes "xmlns:soap=\"http://www.w3.org/2003/05/soap-envelope\" " ++
  bytes "xmlns:wsa=\"http://schemas.xmlsoap.org/ws/2004/08/addressing\" " ++
  bytes "xmlns:wsd=\"http://schemas.xmlsoap.org/ws/2005/04/discovery\" " ++
  bytes "xmlns:wsx=\"http://schemas.xmlsoap.org/ws/2004/09/mex\" " ++
  bytes "xmlns:wsdp=\"http://schemas.xmlsoap.org/ws/2006/02/devprof\" " ++
  bytes "xmlns:un0=\"http://schemas.microsoft.com/windows/pnpx/2005/10\" " ++
  bytes "xmlns:pub=\"http://schemas.microsoft.com/windows/pub/2005/07\">" ++
  bytes "<soap:Header>" ++ bytes "<wsa:To>"

/-- The numbers of one message. -/
structure Stamp where
  random : Random
  msg_no : UInt32

def soap_relates : Option Bytes → Bytes
  | none => []
  | some relates => bytes "<wsa:RelatesTo>" ++ relates ++ bytes "</wsa:RelatesTo>"

/-- The message that `wsd_send_soap_msg` makes. -/
def soap_msg (h : Host) (to_ action : Bytes) (relates : Option Bytes) (body : Bytes) (n : Stamp) :
    Bytes :=
  [soapHead, to_, bytes "</wsa:To>",
    bytes "<wsa:Action>", action, bytes "</wsa:Action>",
    bytes "<wsa:MessageID>", bytes "urn:uuid:" ++ uuid_random n.random, bytes "</wsa:MessageID>",
    bytes "<wsd:AppSequence InstanceId=\"", decimal h.wsd_instance,
    bytes "\" SequenceId=\"urn:uuid:", h.wsd_sequence, bytes "\" ",
    bytes "MessageNumber=\"", decimal n.msg_no.toNat, bytes "\" />",
    soap_relates relates, bytes "</soap:Header>", body, bytes "</soap:Envelope>"].flatten

/-- The body of `Hello` and `Bye`. -/
def announcement (h : Host) (name : Bytes) : Bytes :=
  bytes "<soap:Body>" ++ bytes "<wsd:" ++ name ++ bytes ">" ++
  bytes "<wsa:EndpointReference>" ++
  bytes "<wsa:Address>urn:uuid:" ++ h.wsd_endpoint ++ bytes "</wsa:Address>" ++
  bytes "</wsa:EndpointReference>" ++
  bytes "<wsd:Types>wsdp:Device pub:Computer</wsd:Types>" ++
  bytes "<wsd:MetadataVersion>2</wsd:MetadataVersion>" ++
  bytes "</wsd:" ++ name ++ bytes ">" ++ bytes "</soap:Body>"

def wsd_send_hello (h : Host) (n : Stamp) : Bytes :=
  soap_msg h WSD_TO_DISCOVERY WSD_ACT_HELLO none (announcement h (bytes "Hello")) n

def wsd_send_bye (h : Host) (n : Stamp) : Bytes :=
  soap_msg h WSD_TO_DISCOVERY WSD_ACT_BYE none (announcement h (bytes "Bye")) n

/-- `ip2uri` of the address as text. The text of an IPv6 address has a colon, and the name of the
host is taken for it. -/
def ip2uri (h : Host) (ci : Addr) : Bytes :=
  match ci.family with
  | .inet => List.intercalate (bytes ".") (ci.octets.map fun b => decimal b.toNat)
  | .inet6 => h.hostname

/-- The body of `ProbeMatches` and `ResolveMatches`. -/
def matchBody (h : Host) (name : Bytes) (ci : Addr) : Bytes :=
  bytes "<soap:Body>" ++ bytes "<wsd:" ++ name ++ bytes "es>" ++
  bytes "<wsd:" ++ name ++ bytes ">" ++
  bytes "<wsa:EndpointReference>" ++
  bytes "<wsa:Address>urn:uuid:" ++ h.wsd_endpoint ++ bytes "</wsa:Address>" ++
  bytes "</wsa:EndpointReference>" ++
  bytes "<wsd:Types>wsdp:Device pub:Computer</wsd:Types>" ++
  bytes "<wsd:XAddrs>http://" ++ ip2uri h ci ++ bytes ":" ++ decimal h.port.toNat ++ bytes "/" ++
    h.wsd_endpoint ++ bytes "</wsd:XAddrs>" ++
  bytes "<wsd:MetadataVersion>2</wsd:MetadataVersion>" ++
  bytes "</wsd:" ++ name ++ bytes ">" ++
  bytes "</wsd:" ++ name ++ bytes "es>" ++ bytes "</soap:Body>"

def wsd_send_probe_match (h : Host) (info : ReqInfo) (ci : Addr) (n : Stamp) : List Bytes :=
  [soap_msg h WSD_TO_ANONYMOUS WSD_ACT_PROBEMATCH (some info.msgid)
    (matchBody h (bytes "ProbeMatch") ci) n]

def wsd_send_resolve_match (h : Host) (info : ReqInfo) (ci : Addr) (n : Stamp) : List Bytes :=
  [soap_msg h WSD_TO_ANONYMOUS WSD_ACT_RESOLVEMATCH (some info.msgid)
    (matchBody h (bytes "ResolveMatch") ci) n]

/-- The line ends of HTTP. -/
def crlf : Bytes := [13, 10]

def statusText (status : ℕ) : Bytes :=
  match status with
  | 200 => bytes "200 OK"
  | 400 => bytes "400 Bad Request"
  | 405 => bytes "405 Method Not Allowed"
  | 500 => bytes "500 Internal Server Error"
  | _ => bytes "404 Not Found"

/-- `struct tm`, with the whole year. -/
structure Tm where
  wday : Fin 7
  mday : ℕ
  mon : Fin 12
  year : ℕ
  hour : ℕ
  min : ℕ
  sec : ℕ

def twoDigits (n : ℕ) : Bytes := if n < 10 then bytes "0" ++ decimal n else decimal n

/-- `strftime` with `%a, %d %b %Y %H:%M:%S GMT`. -/
def strftime (t : Tm) : Bytes :=
  (["Sun", "Mon", "Tue", "Wed", "Thu", "Fri", "Sat"].map bytes).getD t.wday [] ++ bytes ", " ++
  twoDigits t.mday ++ bytes " " ++
  (["Jan", "Feb", "Mar", "Apr", "May", "Jun", "Jul", "Aug", "Sep", "Oct", "Nov", "Dec"].map
    bytes).getD t.mon [] ++ bytes " " ++
  decimal t.year ++ bytes " " ++
  twoDigits t.hour ++ bytes ":" ++ twoDigits t.min ++ bytes ":" ++ twoDigits t.sec ++ bytes " GMT"

def send_http_resp_header (date : Tm) (status length : ℕ) : Bytes :=
  bytes "HTTP/1.1 " ++ statusText status ++ crlf ++
  bytes "Server: NETGEAR WSD Server" ++ crlf ++
  bytes "Date: " ++ strftime date ++ crlf ++
  bytes "Connection: close" ++ crlf ++
  bytes "Content-Type: application/soap+xml" ++ crlf ++
  bytes "Content-Length: " ++ decimal length ++ crlf ++ crlf

def getBody (h : Host) : Bytes :=
  let getresp := get_getresp h.bootinfo
  bytes "<soap:Body>" ++ bytes "<wsx:Metadata>" ++
  bytes "<wsx:MetadataSection Dialect=\"" ++
  bytes "http://schemas.xmlsoap.org/ws/2006/02/devprof/ThisDevice\">" ++
  bytes "<wsdp:ThisDevice>" ++
  bytes "<wsdp:FriendlyName>" ++ bytes "Microsoft Publication Service Device Host" ++
    bytes "</wsdp:FriendlyName>" ++
  bytes "<wsdp:FirmwareVersion>" ++ bytes "1.0" ++ bytes "</wsdp:FirmwareVersion>" ++
  bytes "<wsdp:SerialNumber>" ++ bytes "20050718" ++ bytes "</wsdp:SerialNumber>" ++
  bytes "</wsdp:ThisDevice>" ++ bytes "</wsx:MetadataSection>" ++
  bytes "<wsx:MetadataSection Dialect=\"" ++
  bytes "http://schemas.xmlsoap.org/ws/2006/02/devprof/ThisModel\">" ++
  bytes "<wsdp:ThisModel>" ++
  bytes "<wsdp:Manufacturer>" ++ getresp (bytes "vendor:") ++ bytes "</wsdp:Manufacturer>" ++
  bytes "<wsdp:ManufacturerUrl>" ++ getresp (bytes "vendorurl:") ++
    bytes "</wsdp:ManufacturerUrl>" ++
  bytes "<wsdp:ModelName>" ++ getresp (bytes "model:") ++ bytes "</wsdp:ModelName>" ++
  bytes "<wsdp:ModelNumber>1</wsdp:ModelNumber>" ++
  bytes "<wsdp:ModelUrl>" ++ getresp (bytes "modelurl:") ++ bytes "</wsdp:ModelUrl>" ++
  bytes "<wsdp:PresentationUrl>" ++ getresp (bytes "presentationurl:") ++
    bytes "</wsdp:PresentationUrl>" ++
  bytes "<un0:DeviceCategory>Computers</un0:DeviceCategory>" ++
  bytes "</wsdp:ThisModel>" ++ bytes "</wsx:MetadataSection>" ++
  bytes "<wsx:MetadataSection Dialect=\"" ++
  bytes "http://schemas.xmlsoap.org/ws/2006/02/devprof/Relationship\">" ++
  bytes "<wsdp:Relationship Type=\"" ++
  bytes "http://schemas.xmlsoap.org/ws/2006/02/devprof/host\">" ++
  bytes "<wsdp:Host>" ++ bytes "<wsa:EndpointReference>" ++
  bytes "<wsa:Address>urn:uuid:" ++ h.wsd_endpoint ++ bytes "</wsa:Address>" ++
  bytes "</wsa:EndpointReference>" ++
  bytes "<wsdp:Types>pub:Computer</wsdp:Types>" ++
  bytes "<wsdp:ServiceId>urn:uuid:" ++ h.wsd_endpoint ++ bytes "</wsdp:ServiceId>" ++
  bytes "<pub:Computer>" ++ h.netbiosname ++ bytes "/Workgroup:" ++ h.workgroup ++
    bytes "</pub:Computer>" ++
  bytes "</wsdp:Host>" ++ bytes "</wsdp:Relationship>" ++ bytes "</wsx:MetadataSection>" ++
  bytes "</wsx:Metadata>" ++ bytes "</soap:Body>"

/-- The header of HTTP, also where the request came in a datagram, and the message. -/
def wsd_send_get_response (h : Host) (info : ReqInfo) (date : Tm) (n : Stamp) : List Bytes :=
  let msg := soap_msg h WSD_TO_ANONYMOUS WXT_ACT_GETRESPONSE (some info.msgid) (getBody h) n
  [send_http_resp_header date 200 msg.length, msg]

/-! ## Requests and what is sent for them -/

/-- What `wsd_recv` hands to `send` or `sendto` for a request that is read. -/
def wsd_respond (h : Host) (ifs : List Ifaddr) (sa : Addr) (xml : Bytes) (date : Tm)
    (n : Stamp) : List Bytes :=
  match wsd_req_parse xml with
  | none => []
  | some info =>
    match connected_if ifs sa with
    | none => []
    | some ci =>
      match wsd_action_id (some info) with
      | .probe => wsd_send_probe_match h info ci n
      | .resolve => wsd_send_resolve_match h info ci n
      | .get => wsd_send_get_response h info date n
      | _ => []

/-- `char buf[10000]`. -/
def wsdBufSize : ℕ := 10000

/-- `wsd_recv` on a datagram. -/
def wsd_recv_dgram (h : Host) (ifs : List Ifaddr) (sa : Addr) (d : Bytes) (date : Tm)
    (n : Stamp) : List Bytes :=
  let input := d.take (wsdBufSize - 1)
  if input = [] then [] else wsd_respond h ifs sa (cstr input) date n

end Wsdd
