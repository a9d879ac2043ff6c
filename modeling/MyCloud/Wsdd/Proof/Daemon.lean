import Mathlib.Data.List.Perm.Subperm
import MyCloud.Wsdd.Daemon

/-!
# Runs of the daemon

* `Inv`: the descriptors, the endpoints and the announcements belong together.
* `run_inv`: so they do in every run, whatever fails and whatever arrives.
* `starts_again_iff`: what makes the daemon start again, and what the signals do to it, by the time they
  come.
-/

set_option autoImplicit false

namespace Wsdd

open Shell

/-! ## Descriptors -/

theorem lowest_notMem (fds : List ℕ) : lowest fds ∉ fds := by
  unfold lowest
  cases h : (List.range (fds.length + 1)).find? (· ∉ fds) with
  | none =>
    rw [List.find?_eq_none] at h
    have hsub : List.range (fds.length + 1) ⊆ fds := fun i hi => by simpa using h i hi
    have hle := (List.Nodup.subperm List.nodup_range hsub).length_le
    rw [List.length_range] at hle
    omega
  | some i => simpa using List.find?_some h

theorem erase_concat {s : ℕ} {l : List ℕ} (h : s ∉ l) : (l ++ [s]).erase s = l := by
  rw [List.erase_append_right _ h]
  simp

/-! ## Announcements -/

/-- The sockets that have said `Hello` and not yet `Bye`, the last one first. `Bye` is said by the last
one only. -/
def announced (present : List ℕ) (a : Announcement) : Option (List ℕ) :=
  if a.hello then some (if a.sent then a.sock :: present else present)
  else
    match present with
    | [] => none
    | s :: t => if s = a.sock then some t else none

def wsdSocks (eps : List Endpoint) : List ℕ := (eps.filter (·.service.role = .wsd)).map (·.sock)

/-! ## The invariant -/

/-- The descriptors, the endpoints and the announcements belong together. -/
structure Inv (base : List ℕ) (d : Daemon) : Prop where
  sockets : d.open_ = base ++ (d.endpoints.map (·.sock)).reverse
  distinct : (d.endpoints.map (·.sock)).Nodup
  fresh : ∀ ep ∈ d.endpoints, ep.sock ∉ base
  increasing : (d.log.map (·.msg_no)).Pairwise (· < ·)
  bound : ∀ a ∈ d.log, a.msg_no ≤ d.msg_no
  present : d.log.foldlM announced [] = some (wsdSocks d.endpoints)
  closes : d.ebadf = false

theorem Inv.start (base : List ℕ) : Inv base (.start base) where
  sockets := (List.append_nil base).symm
  distinct := .nil
  fresh := fun _ h => absurd h List.not_mem_nil
  increasing := .nil
  bound := fun _ h => absurd h List.not_mem_nil
  present := rfl
  closes := rfl

section
variable {base : List ℕ} {d : Daemon}

theorem Inv.count (h : Inv base d) {r n : ℕ} (hn : d.msg_no ≤ n) :
    Inv base { d with restart := r, msg_no := n } :=
  { h with bound := fun a ha => (h.bound a ha).trans hn }

theorem signals_eq (hups : List Bool) (d : Daemon) :
    ∃ r, d.signals hups = { d with restart := r } := by
  induction hups generalizing d with
  | nil => exact ⟨d.restart, rfl⟩
  | cons hup hups ih => exact ih (d.sighandler hup)

theorem signals_endpoints (hups : List Bool) (d : Daemon) :
    (d.signals hups).endpoints = d.endpoints := by
  obtain ⟨r, hr⟩ := signals_eq hups d
  rw [hr]

theorem Inv.signals (h : Inv base d) (hups : List Bool) : Inv base (d.signals hups) := by
  obtain ⟨r, hr⟩ := signals_eq hups d
  rw [hr]
  exact h.count le_rfl

/-- The number of a new announcement is greater than those before. -/
theorem Inv.announce_increasing (h : Inv base d) (hello : Bool) (sock : ℕ) (sent : Bool) :
    ((d.announce hello sock sent).log.map (·.msg_no)).Pairwise (· < ·) ∧
      ∀ a ∈ (d.announce hello sock sent).log, a.msg_no ≤ (d.announce hello sock sent).msg_no := by
  unfold Daemon.announce
  dsimp only
  refine ⟨?_, ?_⟩
  · rw [List.map_append, List.pairwise_append]
    refine ⟨h.increasing, List.pairwise_singleton _ _, fun n hn m hm => ?_⟩
    obtain ⟨a, ha, rfl⟩ := List.mem_map.1 hn
    rw [List.map_singleton, List.mem_singleton] at hm
    rw [hm]
    exact Nat.lt_succ_of_le (h.bound a ha)
  · intro a ha
    rw [List.mem_append, List.mem_singleton] at ha
    rcases ha with ha | rfl
    · exact (h.bound a ha).trans (Nat.le_succ _)
    · exact le_rfl

theorem Inv.present_announce (h : Inv base d) (hello : Bool) (sock : ℕ) (sent : Bool) :
    (d.announce hello sock sent).log.foldlM announced [] =
      announced (wsdSocks d.endpoints) ⟨hello, sock, d.msg_no + 1, sent⟩ := by
  unfold Daemon.announce
  dsimp only
  rw [List.foldlM_append, h.present]
  exact bind_pure (announced _ _)

end

/-! ## Opening -/

/-- A socket and its endpoint. -/
def Daemon.add (d : Daemon) (ep : Endpoint) : Daemon :=
  { d with open_ := d.open_ ++ [ep.sock], endpoints := ep :: d.endpoints }

/-- All that one attempt can do. -/
theorem openOne_cases (d : Daemon) (sv : Service) (ifname : Bytes) (k : Kernel) :
    let sock := lowest d.open_
    let d' := (openOne d sv ifname k).2
    d' = d ∨ d' = d.announce true sock false ∨
      sv.role ≠ .wsd ∧ d' = d.add ⟨ifname, sv, sock⟩ ∨
      sv.role = .wsd ∧ d' = (d.announce true sock true).add ⟨ifname, sv, sock⟩ := by
  intro sock d'
  have herase : (d.open_ ++ [sock]).erase sock = d.open_ := erase_concat (lowest_notMem d.open_)
  have hopen : (d.ebadf || decide (sock ∉ d.open_ ++ [sock])) = d.ebadf := by simp
  have hclose : ({ d with open_ := d.open_ ++ [sock] } : Daemon).close sock = d := by
    unfold Daemon.close
    rw [herase, hopen]
  have hunsent : (({ d with open_ := d.open_ ++ [sock] } : Daemon).announce true sock false).close
      sock = d.announce true sock false := by
    unfold Daemon.close Daemon.announce
    rw [herase, hopen]
  simp only [d']
  unfold openOne open_ep
  by_cases hs : k.fails .socket
  · rw [if_pos hs]
    exact .inl rfl
  rw [if_neg hs]
  by_cases hb : k.fails .bind
  · dsimp only
    rw [if_pos hb]
    cases k.inUse
    · exact .inl hclose
    · exact .inl hclose
  dsimp only
  rw [if_neg hb]
  by_cases hm : sv.mcast_addr.isSome ∧
      (sv.family = .inet ∧ k.fails .pktinfo ∨ k.fails .loop ∨ k.fails .membership)
  · rw [if_pos hm]
    exact .inl hclose
  rw [if_neg hm]
  by_cases hl : sv.type = .stream ∧ k.fails .listen
  · rw [if_pos hl]
    exact .inl hclose
  rw [if_neg hl]
  unfold Daemon.init
  by_cases hr : sv.role = .wsd
  · rw [if_pos hr]
    by_cases hp : k.fails .prepare
    · rw [if_pos hp]
      exact .inl hclose
    rw [if_neg hp]
    cases k.fails .hello
    · exact .inr (.inr (.inr ⟨hr, rfl⟩))
    · exact .inr (.inl hunsent)
  · rw [if_neg hr]
    exact .inr (.inr (.inl ⟨hr, rfl⟩))

section
variable {base : List ℕ} {d : Daemon}

theorem Inv.unsent (h : Inv base d) (sock : ℕ) : Inv base (d.announce true sock false) where
  sockets := h.sockets
  distinct := h.distinct
  fresh := h.fresh
  increasing := (h.announce_increasing true sock false).1
  bound := (h.announce_increasing true sock false).2
  present := h.present_announce true sock false
  closes := h.closes

/-- A new socket is not one of those before. -/
theorem Inv.add_sockets (h : Inv base d) {ep : Endpoint} (hs : ep.sock ∉ d.open_) :
    (d.add ep).open_ = base ++ ((d.add ep).endpoints.map (·.sock)).reverse ∧
      ((d.add ep).endpoints.map (·.sock)).Nodup ∧ ∀ e ∈ (d.add ep).endpoints, e.sock ∉ base := by
  rw [h.sockets, List.mem_append, List.mem_reverse, not_or] at hs
  unfold Daemon.add
  dsimp only
  refine ⟨?_, List.nodup_cons.2 ⟨hs.2, h.distinct⟩, List.forall_mem_cons.2 ⟨hs.1, h.fresh⟩⟩
  rw [h.sockets, List.map_cons, List.reverse_cons, List.append_assoc]

theorem Inv.add (h : Inv base d) {ep : Endpoint} (hs : ep.sock ∉ d.open_)
    (hr : ep.service.role ≠ .wsd) : Inv base (d.add ep) where
  sockets := (h.add_sockets hs).1
  distinct := (h.add_sockets hs).2.1
  fresh := (h.add_sockets hs).2.2
  increasing := h.increasing
  bound := h.bound
  present := by
    have hsocks : wsdSocks (d.add ep).endpoints = wsdSocks d.endpoints := by
      unfold wsdSocks Daemon.add
      rw [List.filter_cons_of_neg (by simpa using hr)]
    rw [hsocks]
    exact h.present
  closes := h.closes

theorem Inv.addWsd (h : Inv base d) {ep : Endpoint} (hs : ep.sock ∉ d.open_)
    (hr : ep.service.role = .wsd) : Inv base ((d.announce true ep.sock true).add ep) where
  sockets := (h.add_sockets hs).1
  distinct := (h.add_sockets hs).2.1
  fresh := (h.add_sockets hs).2.2
  increasing := (h.announce_increasing true ep.sock true).1
  bound := (h.announce_increasing true ep.sock true).2
  present := by
    have hsocks : wsdSocks ((d.announce true ep.sock true).add ep).endpoints =
        ep.sock :: wsdSocks d.endpoints := by
      unfold wsdSocks Daemon.add
      rw [List.filter_cons_of_pos (by simpa using hr), List.map_cons]
      rfl
    rw [hsocks]
    exact h.present_announce true ep.sock true
  closes := h.closes

theorem Inv.openOne (h : Inv base d) (sv : Service) (ifname : Bytes) (k : Kernel) :
    Inv base (openOne d sv ifname k).2 := by
  have hlow := lowest_notMem d.open_
  obtain he | he | ⟨hr, he⟩ | ⟨hr, he⟩ := openOne_cases d sv ifname k
  · rw [he]
    exact h
  · rw [he]
    exact h.unsent _
  · rw [he]
    exact h.add hlow hr
  · rw [he]
    exact h.addWsd hlow hr

theorem Inv.openAll (h : Inv base d) (as : List (Service × Bytes)) (ks : List Kernel) :
    Inv base (openAll as ks d).2 := by
  induction as generalizing ks d with
  | nil => exact h
  | cons a as ih =>
    have hone := h.openOne a.1 a.2 (ks.headD ⟨fun _ => false, false⟩)
    unfold Wsdd.openAll
    dsimp only
    split
    · exact hone
    · exact ih hone _

/-! ## The loop -/

/-- The loop changes the flag and the number of messages. -/
theorem round_state (hs : List Happening) (d : Daemon) :
    ∃ r n, d.msg_no ≤ n ∧ (round hs d).2 = { d with restart := r, msg_no := n } := by
  induction hs generalizing d with
  | nil => exact ⟨_, _, le_rfl, rfl⟩
  | cons x t ih =>
    cases x with
    | signal hup => exact ih (d.sighandler hup)
    | arrival sv a =>
      unfold round
      dsimp only
      split
      · obtain ⟨r, n, hn, he⟩ := ih { d with msg_no := d.msg_no + numbered sv a }
        exact ⟨r, n, (Nat.le_add_right _ _).trans hn, he⟩
      · exact ⟨_, _, Nat.le_add_right _ _, rfl⟩
      · exact ⟨_, _, Nat.le_add_right _ _, rfl⟩

theorem mainLoop_state (ss : List Select) (d : Daemon) :
    ∃ r n, d.msg_no ≤ n ∧ (mainLoop ss d).2 = { d with restart := r, msg_no := n } := by
  induction ss generalizing d with
  | nil => exact ⟨_, _, le_rfl, rfl⟩
  | cons x t ih =>
    cases x with
    | error hups =>
      obtain ⟨r, hr⟩ := signals_eq hups d
      exact ⟨r, _, le_rfl, hr⟩
    | ready hs =>
      obtain ⟨r, n, hn, he⟩ := round_state hs d
      unfold mainLoop
      split
      · rename_i d' hd
        rw [hd] at he
        obtain ⟨r', n', hn', he'⟩ := ih d'
        cases he
        exact ⟨r', n', hn.trans hn', he'⟩
      · exact ⟨r, n, hn, he⟩

/-! ## Closing -/

theorem Inv.close_ep {ep : Endpoint} {t : List Endpoint} (h : Inv base d)
    (he : d.endpoints = ep :: t) (sent : Bool) :
    Inv base { close_ep d ep sent with endpoints := t } := by
  obtain ⟨hsock, hdist, hfresh, hinc, hbound, hpres, hcl⟩ := id h
  rw [he] at hsock hdist hfresh hpres
  rw [List.map_cons, List.nodup_cons] at hdist
  rw [List.forall_mem_cons] at hfresh
  have herase : d.open_.erase ep.sock = base ++ (t.map (·.sock)).reverse := by
    rw [hsock, List.map_cons, List.reverse_cons, ← List.append_assoc]
    refine erase_concat ?_
    rw [List.mem_append, List.mem_reverse, not_or]
    exact ⟨hfresh.1, hdist.1⟩
  have hopen : (d.ebadf || decide (ep.sock ∉ d.open_)) = false := by
    rw [hcl, hsock]
    simp
  by_cases hr : ep.service.role = .wsd
  · have hclose : Wsdd.close_ep d ep sent = (d.announce false ep.sock sent).close ep.sock := by
      unfold Wsdd.close_ep
      rw [if_pos hr]
    rw [hclose]
    refine ⟨herase, hdist.2, hfresh.2, (h.announce_increasing false ep.sock sent).1,
      (h.announce_increasing false ep.sock sent).2, ?_, hopen⟩
    have hsocks : wsdSocks d.endpoints = ep.sock :: wsdSocks t := by
      unfold wsdSocks
      rw [he, List.filter_cons_of_pos (by simpa using hr), List.map_cons]
    have hann := h.present_announce false ep.sock sent
    rw [hsocks] at hann
    exact hann.trans (if_pos rfl)
  · have hclose : Wsdd.close_ep d ep sent = d.close ep.sock := by
      unfold Wsdd.close_ep
      rw [if_neg hr]
    rw [hclose]
    refine ⟨herase, hdist.2, hfresh.2, hinc, hbound, hpres.trans ?_, hopen⟩
    unfold wsdSocks
    rw [List.filter_cons_of_neg (by simpa using hr)]

theorem Inv.closeAll {eps : List Endpoint} (h : Inv base d) (he : d.endpoints = eps)
    (byes : List Bool) :
    Inv base (closeAll eps byes d) ∧ (closeAll eps byes d).endpoints = [] := by
  induction eps generalizing d byes with
  | nil => exact ⟨h, he⟩
  | cons ep t ih => exact ih (h.close_ep he (byes.headD true)) rfl byes.tail

/-! ## The flag -/

theorem openAll_restart (as : List (Service × Bytes)) (ks : List Kernel) (d : Daemon) :
    (openAll as ks d).2.restart = d.restart := by
  induction as generalizing ks d with
  | nil => rfl
  | cons a as ih =>
    have hone : (openOne d a.1 a.2 (ks.headD ⟨fun _ => false, false⟩)).2.restart = d.restart := by
      obtain he | he | ⟨-, he⟩ | ⟨-, he⟩ :=
        openOne_cases d a.1 a.2 (ks.headD ⟨fun _ => false, false⟩) <;> rw [he] <;> rfl
    unfold openAll
    dsimp only
    split
    · exact hone
    · exact (ih _ _).trans hone

theorem closeAll_restart (eps : List Endpoint) (byes : List Bool) (d : Daemon) :
    (closeAll eps byes d).restart = d.restart := by
  induction eps generalizing d byes with
  | nil => rfl
  | cons ep t ih =>
    have hone : (close_ep d ep (byes.headD true)).restart = d.restart := by
      unfold close_ep
      split <;> rfl
    exact (ih _ _).trans hone

/-! ## Runs -/

/-- The daemon has closed its endpoints. -/
def Phase.Closed (p : Phase) : Prop := p = .starting ∨ p = .terminated

theorem Inv.cycle (h : Inv base d) (he : d.endpoints = []) (o : Options) (c : Cycle) :
    Inv base (cycle o c d).2 ∧ ((cycle o c d).1.Closed → (cycle o c d).2.endpoints = []) := by
  unfold Wsdd.cycle
  split
  · exact ⟨h, fun _ => he⟩
  · rename_i ifs _
    have hopen := h.openAll (attempts o ifs) c.kernel
    split
    · rename_i d' hd
      rw [hd] at hopen
      obtain ⟨h1, h2⟩ := hopen.closeAll rfl c.byes
      exact ⟨h1, fun _ => h2⟩
    · rename_i d' hd
      rw [hd] at hopen
      obtain ⟨r, n, hn, hl⟩ := mainLoop_state c.selects (d'.signals c.opening)
      have hloop := (hopen.signals c.opening).count (r := r) hn
      rw [← hl] at hloop
      split
      · rename_i d'' hd'
        rw [hd'] at hloop
        exact ⟨hloop, fun hc => by rcases hc with hc | hc <;> cases hc⟩
      · rename_i d'' hd'
        rw [hd'] at hloop
        exact ⟨hloop, fun hc => by rcases hc with hc | hc <;> cases hc⟩
      · rename_i d'' hd'
        rw [hd'] at hloop
        obtain ⟨h1, h2⟩ := hloop.closeAll rfl c.byes
        have h3 := h1.signals c.closing
        rw [← signals_endpoints c.closing] at h2
        dsimp only
        split
        · exact ⟨h3.count le_rfl, fun _ => h2⟩
        · exact ⟨h3, fun _ => h2⟩

theorem Inv.run (h : Inv base d) (he : d.endpoints = []) (o : Options) (cs : List Cycle) :
    Inv base (run o cs d).2 ∧ ((run o cs d).1.Closed → (run o cs d).2.endpoints = []) := by
  induction cs generalizing d with
  | nil => exact ⟨h, fun _ => he⟩
  | cons c t ih =>
    have hc := h.cycle he o c
    unfold Wsdd.run
    split
    · rename_i d' hd
      rw [hd] at hc
      exact ih hc.1 (hc.2 (.inl rfl))
    · exact hc

end

/-- `restart` after a signal, whether it is `SIGHUP`; a `recv` that ends the loop sets it likewise. -/
def flag : Option Bool → ℕ
  | none => 0
  | some true => 1
  | some false => 2

theorem flag_eq_zero_iff {f : Option Bool} : flag f = 0 ↔ f = none := by
  rcases f with _ | _ | _ <;> simp [flag]

theorem flag_eq_one_iff {f : Option Bool} : flag f = 1 ↔ f = some true := by
  rcases f with _ | _ | _ <;> simp [flag]

/-- The first arrival that ends a round. -/
def stop : List Happening → Loop
  | [] => .goesOn
  | .signal _ :: t => stop t
  | .arrival sv a :: t =>
    match onArrival sv a with
    | .goesOn => stop t
    | l => l

/-- Whether the last signal of a round is `SIGHUP`. -/
def lastSignal : List Happening → Option Bool
  | [] => none
  | .signal hup :: t => (lastSignal t).or (some hup)
  | .arrival _ _ :: t => lastSignal t

/-- A round in which nothing ends the loop. -/
def Calm (hs : List Happening) : Prop := stop hs = .goesOn ∧ lastSignal hs = none

/-- One `select` ends the loop, with `restart` at `f` before it and at `g` after it. -/
inductive Ends (f : Option Bool) : Select → Option Bool → Prop
  | error {hups : List Bool} : Ends f (.error hups) (hups.getLast?.or f)
  /-- The signals of the round are lost. -/
  | recv {hs : List Happening} (h : stop hs = .left) : Ends f (.ready hs) (some true)
  | signal {hs : List Happening} {hup : Bool} (h : stop hs = .goesOn)
      (hl : (lastSignal hs).or f = some hup) : Ends f (.ready hs) (some hup)

/-- The loop is left after calm rounds; a signal from before it ends it with the first. -/
inductive Left : Option Bool → List Select → Option Bool → Prop
  | here {f g : Option Bool} {x : Select} {t : List Select} (h : Ends f x g) : Left f (x :: t) g
  | next {g : Option Bool} {hs : List Happening} {t : List Select} (hc : Calm hs)
      (h : Left none t g) : Left none (.ready hs :: t) g

theorem sighandler_restart (d : Daemon) (hup : Bool) :
    (d.sighandler hup).restart = flag (some hup) := by
  cases hup <;> rfl

theorem restart_signals (hups : List Bool) {d : Daemon} {f : Option Bool}
    (h : d.restart = flag f) : (d.signals hups).restart = flag (hups.getLast?.or f) := by
  induction hups generalizing d f with
  | nil => exact h
  | cons hup hups ih =>
    refine (ih (sighandler_restart d hup)).trans ?_
    rw [List.getLast?_cons, Option.some_or]
    cases hups.getLast? <;> rfl

/-- What a round does to the flag, and whether it ends the loop. -/
theorem round_restart (hs : List Happening) {d : Daemon} {f : Option Bool}
    (h : d.restart = flag f) :
    match stop hs with
    | .goesOn => (round hs d).1 = (if (lastSignal hs).or f = none then .goesOn else .left) ∧
        (round hs d).2.restart = flag ((lastSignal hs).or f)
    | .left => (round hs d).1 = .left ∧ (round hs d).2.restart = flag (some true)
    | .died => (round hs d).1 = .died := by
  induction hs generalizing d f with
  | nil =>
    refine ⟨?_, h⟩
    unfold round lastSignal
    rw [h]
    exact if_congr flag_eq_zero_iff rfl rfl
  | cons x t ih =>
    cases x with
    | signal hup =>
      have hor : (lastSignal (.signal hup :: t)).or f = (lastSignal t).or (some hup) := by
        rw [lastSignal]
        cases lastSignal t <;> rfl
      rw [hor]
      exact ih (sighandler_restart d hup)
    | arrival sv a =>
      unfold stop round lastSignal
      cases onArrival sv a with
      | goesOn => exact ih (d := { d with msg_no := d.msg_no + numbered sv a }) h
      | left => exact ⟨rfl, rfl⟩
      | died => rfl

theorem round_goesOn_iff (hs : List Happening) {d : Daemon} {f : Option Bool}
    (h : d.restart = flag f) : (round hs d).1 = .goesOn ↔ Calm hs ∧ f = none := by
  have hr := round_restart hs h
  unfold Calm
  cases hstop : stop hs with
  | goesOn =>
    rw [hstop] at hr
    rw [hr.1, ite_eq_left_iff]
    simp
  | left =>
    rw [hstop] at hr
    rw [hr.1]
    simp
  | died =>
    rw [hstop] at hr
    rw [hr]
    simp

theorem round_left {hs : List Happening} {d : Daemon} {f : Option Bool} (h : d.restart = flag f)
    (hl : (round hs d).1 = .left) :
    ∃ g, Ends f (.ready hs) g ∧ (round hs d).2.restart = flag g := by
  have hr := round_restart hs h
  cases hstop : stop hs with
  | goesOn =>
    rw [hstop] at hr
    cases hor : (lastSignal hs).or f with
    | none => simp [hor, hl] at hr
    | some hup => exact ⟨_, .signal hstop hor, hor ▸ hr.2⟩
  | left =>
    rw [hstop] at hr
    exact ⟨_, .recv hstop, hr.2⟩
  | died =>
    rw [hstop] at hr
    cases hl.symm.trans hr

theorem Ends.round {hs : List Happening} {d : Daemon} {f g : Option Bool}
    (hE : Ends f (.ready hs) g) (h : d.restart = flag f) :
    (round hs d).1 = .left ∧ (round hs d).2.restart = flag g := by
  have hr := round_restart hs h
  rcases hE with _ | hstop | ⟨hstop, hor⟩
  · rw [hstop] at hr
    exact hr
  · rw [hstop, hor] at hr
    exact hr

/-- How the loop can be left. -/
theorem mainLoop_left {ss : List Select} {d : Daemon} {f : Option Bool} (h : d.restart = flag f)
    (hl : (mainLoop ss d).1 = .left) :
    ∃ g, Left f ss g ∧ (mainLoop ss d).2.restart = flag g := by
  induction ss generalizing d f with
  | nil => cases hl
  | cons x t ih =>
    cases x with
    | error hups => exact ⟨_, .here .error, restart_signals hups h⟩
    | ready hs =>
      have hgoes := round_goesOn_iff hs h
      have hleft : (round hs d).1 = .left → _ := round_left h
      have hr := round_restart hs h
      unfold mainLoop at hl ⊢
      split at hl
      · -- the loop goes on, and nothing has set the flag
        rename_i d' hd
        rw [hd] at hgoes hr
        obtain ⟨hc, rfl⟩ := hgoes.1 rfl
        rw [hc.1, hc.2] at hr
        obtain ⟨g, hL, hg⟩ := ih hr.2 hl
        exact ⟨g, .next hc hL, hg⟩
      · obtain ⟨g, hE, hg⟩ := hleft hl
        exact ⟨g, .here hE, hg⟩

theorem Left.mainLoop {ss : List Select} {d : Daemon} {f g : Option Bool} (hL : Left f ss g)
    (h : d.restart = flag f) : (mainLoop ss d).1 = .left ∧ (mainLoop ss d).2.restart = flag g := by
  induction hL generalizing d with
  | @here f g x t hE =>
    cases x with
    | error hups =>
      cases hE
      exact ⟨rfl, restart_signals hups h⟩
    | ready hs =>
      obtain ⟨h1, h2⟩ := hE.round h
      unfold Wsdd.mainLoop
      split
      · rename_i d' hd
        rw [hd] at h1
        cases h1
      · exact ⟨h1, h2⟩
  | @next g hs t hc _ ih =>
    have hgoes := (round_goesOn_iff hs h).2 ⟨hc, rfl⟩
    have hr := round_restart hs h
    rw [hc.1, hc.2] at hr
    unfold Wsdd.mainLoop
    split
    · rename_i d' hd
      rw [hd] at hr
      exact ih hr.2
    · rename_i hno
      exact (hno _ (Prod.ext hgoes rfl)).elim

theorem cycle_starting {o : Options} {c : Cycle} {d : Daemon} (h : (cycle o c d).1 = .starting) :
    (cycle o c d).2.restart = 0 := by
  unfold cycle at h ⊢
  split at h
  · cases h
  · split at h
    · cases h
    · split at h
      · cases h
      · cases h
      · dsimp only at h ⊢
        split at h
        · rename_i hr
          rw [if_pos hr]
        · cases h

theorem run_starting {o : Options} {cs : List Cycle} {d : Daemon} (h0 : d.restart = 0)
    (h : (run o cs d).1 = .starting) : (run o cs d).2.restart = 0 := by
  induction cs generalizing d with
  | nil => exact h0
  | cons c t ih =>
    unfold run at h ⊢
    split at h
    · rename_i d' hd
      have h1 := cycle_starting (o := o) (c := c) (d := d) (by rw [hd])
      rw [hd] at h1
      exact ih h1 h
    · rename_i hno
      exact (hno _ (Prod.ext h rfl)).elim

/-- **In every run, the daemon starts again just when its loop is left and the last to set `restart`,
until the endpoints are closed, is a `recv` or a `SIGHUP`**: a request to terminate is lost where a
`recv` ends the loop in the same round, and one that comes while the endpoints are closed undoes a new
start. -/
theorem starts_again_iff {o : Options} {cs : List Cycle} {base : List ℕ} {d : Daemon}
    (hrun : run o cs (.start base) = (.starting, d)) (c : Cycle) :
    (cycle o c d).1 = .starting ↔ ∃ ifs, c.ifs = some ifs ∧
      (openAll (attempts o ifs) c.kernel d).1 = true ∧
      ∃ f, Left c.opening.getLast? c.selects f ∧ c.closing.getLast?.or f = some true := by
  have h0 : d.restart = 0 := by
    have h : (run o cs (.start base)).1 = .starting → (run o cs (.start base)).2.restart = 0 :=
      run_starting rfl
    rw [hrun] at h
    exact h rfl
  unfold cycle
  split
  · rename_i hi
    rw [hi]
    exact iff_of_false (fun h => by cases h) fun ⟨_, h, _⟩ => by cases h
  · rename_i ifs hi
    simp only [hi, Option.some.injEq, exists_eq_left']
    have hopen := (openAll_restart (attempts o ifs) c.kernel d).trans h0
    split
    · rename_i d' hd
      rw [hd]
      exact iff_of_false (fun h => by cases h) fun h => by cases h.1
    · rename_i d' hd
      rw [hd] at hopen ⊢
      have hsig := restart_signals c.opening (f := none) hopen
      rw [Option.or_none] at hsig
      have hnot : (mainLoop c.selects (d'.signals c.opening)).1 ≠ .left →
          ¬ ∃ f, Left c.opening.getLast? c.selects f ∧ c.closing.getLast?.or f = some true :=
        fun hl ⟨g, hL, _⟩ => hl (hL.mainLoop hsig).1
      split
      · rename_i d'' hd'
        exact iff_of_false (fun h => by cases h) fun h => hnot (by simp [hd']) h.2
      · rename_i d'' hd'
        exact iff_of_false (fun h => by cases h) fun h => hnot (by simp [hd']) h.2
      · rename_i d'' hd'
        -- the flag that the loop leaves, and the signals after it
        have hclosed : ∀ {g}, d''.restart = flag g →
            ((closeAll d''.endpoints c.byes d'').signals c.closing).restart =
              flag (c.closing.getLast?.or g) := fun hg =>
          restart_signals c.closing ((closeAll_restart _ c.byes d'').trans hg)
        have hend : ∀ {g}, d''.restart = flag g →
            ((closeAll d''.endpoints c.byes d'').signals c.closing).restart = 1 →
              c.closing.getLast?.or g = some true := fun hg h1 =>
          flag_eq_one_iff.1 ((hclosed hg).symm.trans h1)
        have hloop : (mainLoop c.selects _).1 = .left → _ := mainLoop_left hsig
        rw [hd'] at hloop
        obtain ⟨g, hL, hg⟩ := hloop rfl
        dsimp only
        split
        · rename_i h1
          exact iff_of_true rfl ⟨rfl, g, hL, hend hg h1⟩
        · rename_i h1
          refine iff_of_false (fun h => by cases h) fun ⟨_, g', hL', hf⟩ => h1 ?_
          have hg' := (hL'.mainLoop hsig).2
          rw [hd'] at hg'
          rw [hclosed hg', hf]
          rfl

/-- A connection to the port of LLMNR right after a request to terminate, and then, while the endpoints
are closed, a second one and a `SIGHUP`. -/
theorem starts_again_after_term :
    (cycle ⟨true, false, false, false, true, false⟩
      ⟨some [⟨bytes "eth0", some ⟨.inet, [192, 168, 1, 5], rfl⟩, [255, 255, 255, 0], false, true⟩], [],
        [], [.ready [.signal false,
          .arrival ⟨bytes "llmnr-tcp-v4", .inet, .stream, none, .llmnr⟩ .closed]],
        [], [false, true]⟩ (.start [0, 1, 2])).1 = .starting := by
  have hrun : run ⟨true, false, false, false, true, false⟩ [] (.start [0, 1, 2]) =
      (.starting, .start [0, 1, 2]) := rfl
  exact (starts_again_iff hrun _).2
    ⟨_, rfl, by decide, some true, .here (.recv (by decide)), rfl⟩

end Wsdd
