import MyCloud.Wsdd.Soap

/-!
# `wsdd2.c`: the daemon

`main`: the services, the endpoints that are opened for them on the interfaces, the loop around
`select`, and what ends it. The kernel is its table of open descriptors; what it refuses, what arrives
and when signals come is given.
-/

set_option autoImplicit false

namespace Wsdd

open Shell

/-! ## Services -/

inductive AF
  | inet | inet6 | netlink
  deriving DecidableEq

inductive SockType
  | stream | dgram | raw
  deriving DecidableEq

/-- `wsd`: `wsd_init`, `wsd_recv` and `wsd_exit`. `http`: `wsd_recv` only. The functions of `llmnr`
besides `llmnr_recv` do nothing. -/
inductive Role
  | wsd | http | llmnr | netlink
  deriving DecidableEq

structure Service where
  name : Bytes
  family : AF
  type : SockType
  mcast_addr : Option Bytes
  role : Role
  deriving DecidableEq

def services : List Service := [
  ⟨bytes "wsdd-mcast-v4", .inet, .dgram, some (bytes "239.255.255.250"), .wsd⟩,
  ⟨bytes "wsdd-mcast-v6", .inet6, .dgram, some (bytes "ff02::c"), .wsd⟩,
  ⟨bytes "wsdd-http-v4", .inet, .stream, none, .http⟩,
  ⟨bytes "wsdd-http-v6", .inet6, .stream, none, .http⟩,
  ⟨bytes "llmnr-mcast-v4", .inet, .dgram, some (bytes "224.0.0.252"), .llmnr⟩,
  ⟨bytes "llmnr-mcast-v6", .inet6, .dgram, some (bytes "ff02::1:3"), .llmnr⟩,
  ⟨bytes "llmnr-tcp-v4", .inet, .stream, none, .llmnr⟩,
  ⟨bytes "llmnr-tcp-v6", .inet6, .stream, none, .llmnr⟩,
  ⟨bytes "ifaddr-netlink-v4v6", .netlink, .raw, none, .netlink⟩]

/-- The options `-4`, `-6`, `-t`, `-u`, `-l` and `-w`. -/
structure Options where
  v4 : Bool
  v6 : Bool
  tcp : Bool
  udp : Bool
  llmnr : Bool
  wsdd : Bool

/-- Of two options that exclude each other none is both. -/
def Options.normal (o : Options) : Options :=
  let both (a b : Bool) : Bool × Bool := if !a && !b then (true, true) else (a, b)
  ⟨(both o.v4 o.v6).1, (both o.v4 o.v6).2, (both o.tcp o.udp).1, (both o.tcp o.udp).2,
    (both o.llmnr o.wsdd).1, (both o.llmnr o.wsdd).2⟩

def enabled (o : Options) (sv : Service) : Bool :=
  !(!o.v4 && sv.family = .inet) && !(!o.v6 && sv.family = .inet6) &&
  !(!o.tcp && sv.type = .stream) && !(!o.udp && sv.type = .dgram) &&
  !(!o.llmnr && bytes "llmnr" <:+: sv.name) && !(!o.wsdd && bytes "wsdd" <:+: sv.name)

/-- Whether an interface gets an endpoint of the service. -/
def serves (sv : Service) (ifa : Ifaddr) : Bool :=
  match ifa.ifa_addr with
  | none => false
  | some a =>
    (a.family = .inet && sv.family = .inet || a.family = .inet6 && sv.family = .inet6) &&
    !ifa.loopback && ifa.ifa_name ≠ bytes "LeafNets" && !(bytes "docker" <+: ifa.ifa_name) &&
    !(bytes "veth" <+: ifa.ifa_name) && !(bytes "tun" <+: ifa.ifa_name) &&
    !(bytes "zt" <+: ifa.ifa_name) && !(sv.mcast_addr.isSome && !ifa.multicast)

/-! ## The state -/

structure Endpoint where
  ifname : Bytes
  service : Service
  sock : ℕ
  deriving DecidableEq

/-- A `Hello` or `Bye` from a socket, and whether it is sent. -/
structure Announcement where
  hello : Bool
  sock : ℕ
  msg_no : ℕ
  sent : Bool
  deriving DecidableEq

structure Daemon where
  /-- The descriptors of the process. -/
  open_ : List ℕ
  endpoints : List Endpoint
  restart : ℕ
  /-- Without its wrapping at 2^32. -/
  msg_no : ℕ
  log : List Announcement
  /-- A descriptor was closed that was not open. -/
  ebadf : Bool

/-- The lowest descriptor that is not in use. -/
def lowest (fds : List ℕ) : ℕ := ((List.range (fds.length + 1)).find? (· ∉ fds)).getD 0

/-! ## Endpoints -/

/-- What can fail in `open_ep`. -/
inductive Stage
  | socket | bind | pktinfo | loop | membership | listen
  /-- `wsd_init` before it sends. -/
  | prepare
  /-- The `Hello` is not sent. -/
  | hello
  deriving DecidableEq

/-- What the kernel does for one `open_ep`. -/
structure Kernel where
  fails : Stage → Bool
  /-- `bind` fails with `EADDRINUSE`. -/
  inUse : Bool

inductive Opened
  | failed
  /-- The function returns 0, and there is no socket. -/
  | skipped
  | endpoint (ep : Endpoint)
  deriving DecidableEq

def Daemon.close (d : Daemon) (sock : ℕ) : Daemon :=
  { d with open_ := d.open_.erase sock, ebadf := d.ebadf || sock ∉ d.open_ }

/-- `wsd_send_soap_msg` of an announcement: the number is used up, also if it is not sent. -/
def Daemon.announce (d : Daemon) (hello : Bool) (sock : ℕ) (sent : Bool) : Daemon :=
  { d with msg_no := d.msg_no + 1, log := d.log ++ [⟨hello, sock, d.msg_no + 1, sent⟩] }

/-- `sv->init`: whether it fails. -/
def Daemon.init (d : Daemon) (sv : Service) (k : Kernel) (sock : ℕ) : Bool × Daemon :=
  if sv.role = .wsd then
    if k.fails .prepare then (true, d)
    else (k.fails .hello, d.announce true sock (!k.fails .hello))
  else (false, d)

def open_ep (d : Daemon) (sv : Service) (ifname : Bytes) (k : Kernel) : Opened × Daemon :=
  if k.fails .socket then (.failed, d)
  else
    let sock := lowest d.open_
    let d := { d with open_ := d.open_ ++ [sock] }
    if k.fails .bind then (if k.inUse then .skipped else .failed, d.close sock)
    else if sv.mcast_addr.isSome ∧
        (sv.family = .inet ∧ k.fails .pktinfo ∨ k.fails .loop ∨ k.fails .membership) then
      (.failed, d.close sock)
    else if sv.type = .stream ∧ k.fails .listen then (.failed, d.close sock)
    else
      let (bad, d) := d.init sv k sock
      if bad then (.failed, d.close sock) else (.endpoint ⟨ifname, sv, sock⟩, d)

/-- `close_ep`: `Bye` is sent from the endpoints of `wsd`; a failure is ignored. -/
def close_ep (d : Daemon) (ep : Endpoint) (sent : Bool) : Daemon :=
  (if ep.service.role = .wsd then d.announce false ep.sock sent else d).close ep.sock

/-! ## Opening -/

/-- One endpoint, kept if there is a socket. `false`: it failed. -/
def openOne (d : Daemon) (sv : Service) (ifname : Bytes) (k : Kernel) : Bool × Daemon :=
  match open_ep d sv ifname k with
  | (.failed, d) => (false, d)
  | (.skipped, d) => (true, d)
  | (.endpoint ep, d) => (true, { d with endpoints := ep :: d.endpoints })

/-- The endpoints that `main` tries to open, in order. -/
def attempts (o : Options) (ifs : List Ifaddr) : List (Service × Bytes) :=
  (services.filter (enabled o.normal)).flatMap fun sv =>
    if sv.family = .netlink then [(sv, bytes "netlink")]
    else (ifs.filter (serves sv)).map fun ifa => (sv, ifa.ifa_name)

/-- `badep` is set, and the loop left, where the netlink socket fails; other failures are passed
over. -/
def openAll : List (Service × Bytes) → List Kernel → Daemon → Bool × Daemon
  | [], _, d => (true, d)
  | (sv, ifname) :: t, ks, d =>
    let (ok, d) := openOne d sv ifname (ks.headD ⟨fun _ => false, false⟩)
    if !ok && sv.family = .netlink then (false, d) else openAll t ks.tail d

/-! ## Signals -/

/-- `SIGHUP`, or another signal that is caught. -/
def Daemon.sighandler (d : Daemon) (hup : Bool) : Daemon := { d with restart := if hup then 1 else 2 }

def Daemon.signals (d : Daemon) (hups : List Bool) : Daemon := hups.foldl Daemon.sighandler d

/-! ## The loop -/

/-- What an endpoint's `recv` finds. -/
inductive Arrival
  | datagram (answered : Bool)
  /-- The first piece that comes on a connection. -/
  | request (answered : Bool)
  /-- A connection that is closed at once. -/
  | closed
  /-- Nothing can be read: on a connection, nothing comes in the time of `SO_RCVTIMEO`. -/
  | silent
  /-- Messages of the kernel, and whether one is about a new or a lost address. -/
  | addresses (changed : Bool)
  /-- What makes `recv` touch memory it must not: the process dies of it. -/
  | fault

/-- Whether `recv` returns a negative number or calls `restart_service`. `llmnr_recv` reads from the
socket that listens, and that fails. -/
def restarts (sv : Service) : Arrival → Bool
  | .silent => true
  | .addresses changed => changed
  | _ => sv.role = .llmnr && sv.type = .stream

/-- The messages with a number that `recv` sends. -/
def numbered (sv : Service) : Arrival → ℕ
  | .datagram true | .request true => if sv.role = .wsd ∨ sv.role = .http then 1 else 0
  | _ => 0

inductive Happening
  | signal (hup : Bool)
  | arrival (sv : Service) (a : Arrival)

/-- Where the process is after a part of the loop. -/
inductive Loop
  | goesOn | left | died
  deriving DecidableEq

/-- What an arrival does to the loop. `restart_service` jumps to the end. -/
def onArrival (sv : Service) : Arrival → Loop
  | .fault => .died
  | a => if restarts sv a then .left else .goesOn

/-- One `select` and the endpoints that are ready then. -/
def round : List Happening → Daemon → Loop × Daemon
  | [], d => (if d.restart = 0 then .goesOn else .left, d)
  | .signal hup :: t, d => round t (d.sighandler hup)
  | .arrival sv a :: t, d =>
    let d := { d with msg_no := d.msg_no + numbered sv a }
    match onArrival sv a with
    | .goesOn => round t d
    | .left => (.left, { d with restart := 1 })
    | .died => (.died, d)

/-- `select` fails, after signals or without, or something happens. -/
inductive Select
  | error (hups : List Bool)
  | ready (hs : List Happening)

def mainLoop : List Select → Daemon → Loop × Daemon
  | [], d => (.goesOn, d)
  | .error hups :: _, d => (.left, d.signals hups)
  | .ready hs :: t, d =>
    match round hs d with
    | (.goesOn, d) => mainLoop t d
    | r => r

/-- `end`: the endpoints are closed from the last one on. -/
def closeAll : List Endpoint → List Bool → Daemon → Daemon
  | [], _, d => d
  | ep :: t, sent, d => closeAll t sent.tail { close_ep d ep (sent.headD true) with endpoints := t }

/-! ## Runs -/

/-- What happens from `again` to `end`. -/
structure Cycle where
  /-- `none`: `getifaddrs` fails. -/
  ifs : Option (List Ifaddr)
  kernel : List Kernel
  /-- The signals while the endpoints are opened. -/
  opening : List Bool
  selects : List Select
  byes : List Bool
  /-- The signals while the endpoints are closed. -/
  closing : List Bool

inductive Phase
  | starting | running | terminated | died
  deriving DecidableEq

/-- From `again` on: where the daemon is after this, and its state. A signal that comes between the
test of `restart` and its reset is lost. -/
def cycle (o : Options) (c : Cycle) (d : Daemon) : Phase × Daemon :=
  match c.ifs with
  | none => (.terminated, d)
  | some ifs =>
    match openAll (attempts o ifs) c.kernel d with
    | (false, d) => (.terminated, closeAll d.endpoints c.byes d)
    | (true, d) =>
      match mainLoop c.selects (d.signals c.opening) with
      | (.goesOn, d) => (.running, d)
      | (.died, d) => (.died, d)
      | (.left, d) =>
        let d := (closeAll d.endpoints c.byes d).signals c.closing
        if d.restart = 1 then (.starting, { d with restart := 0 }) else (.terminated, d)

/-- `main` from its start, with what happens after each `again`. -/
def run (o : Options) : List Cycle → Daemon → Phase × Daemon
  | [], d => (.starting, d)
  | c :: t, d =>
    match cycle o c d with
    | (.starting, d) => run o t d
    | r => r

/-- The state before the first `again`. -/
def Daemon.start (open_ : List ℕ) : Daemon := ⟨open_, [], 0, 0, [], false⟩

end Wsdd
