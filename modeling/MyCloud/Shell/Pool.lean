import MyCloud.Shell.Relational
import Mathlib.Data.Fintype.Defs
import Mathlib.Logic.Function.Basic
import Mathlib.Data.List.Nodup

/-!
# Scripts run in parallel

A `Pool` is a family of scripts over one state. A schedule picks a process for each step; a step is
one command, atomic, or the reply. Each process has its own commands' faults (`step i`).

A process looks at a part `view` of the state by the commands in `looks` and changes it by those in
`writes`. It has the part in hand from its first look to its write or its reply. A schedule is
`Undisturbed` if no process writes while another has the part in hand.

* `linearizes`: after an undisturbed schedule that lets every process reply, the part is as if the
  processes that replied with a value had run one after another, in some order.
-/

set_option autoImplicit false

namespace Shell

open Script

variable {ι C : Type} {R : C → Type} {X α W V : Type}

/-- A process: what is left of its script and whether it has the shared part in hand. -/
inductive Proc (C : Type) (R : C → Type) (X α : Type)
  | running (p : Script C R X α) (inHand : Bool)
  | replied (r : Except X α)

def Proc.inHand : Proc C R X α → Bool
  | .running _ b => b
  | .replied _ => false

def Proc.reply : Proc C R X α → Option (Except X α)
  | .running _ _ => none
  | .replied r => some r

/-- Is the next command in `writes`? -/
def Proc.aboutTo (writes : C → Bool) : Proc C R X α → Bool
  | .running (.call c _) _ => writes c
  | _ => false

structure Pool (ι C : Type) (R : C → Type) (X α W : Type) where
  procs : ι → Proc C R X α
  world : W

namespace Pool

def start (progs : ι → Script C R X α) (w : W) : Pool ι C R X α W :=
  ⟨fun i => .running (progs i) false, w⟩

section
variable [DecidableEq ι] (step : ι → (c : C) → W → R c × W) (looks writes : C → Bool)

/-- One step of process `i`. -/
def next (s : Pool ι C R X α W) (i : ι) : Pool ι C R X α W :=
  match s.procs i with
  | .running (.call c k) b =>
    ⟨Function.update s.procs i
      (.running (k (step i c s.world).1) (if writes c then false else b || looks c)),
      (step i c s.world).2⟩
  | .running (.ret a) _ => ⟨Function.update s.procs i (.replied (.ok a)), s.world⟩
  | .running (.exit x) _ => ⟨Function.update s.procs i (.replied (.error x)), s.world⟩
  | .replied _ => s

def run (s : Pool ι C R X α W) : List ι → Pool ι C R X α W
  | [] => s
  | i :: is => (s.next step looks writes i).run is

/-- If the next command of `i` writes, no other process has the part in hand. -/
def Clear (s : Pool ι C R X α W) (i : ι) : Prop :=
  (s.procs i).aboutTo writes = true → ∀ j ≠ i, (s.procs j).inHand = false

def Undisturbed (s : Pool ι C R X α W) : List ι → Prop
  | [] => True
  | i :: is => s.Clear writes i ∧ (s.next step looks writes i).Undisturbed is

instance [Fintype ι] (s : Pool ι C R X α W) (i : ι) : Decidable (s.Clear writes i) :=
  inferInstanceAs (Decidable (_ → _))

instance decidableUndisturbed [Fintype ι] : (s : Pool ι C R X α W) → (is : List ι) →
    Decidable (s.Undisturbed step looks writes is)
  | _, [] => .isTrue trivial
  | s, i :: is =>
    have := decidableUndisturbed (s.next step looks writes i) is
    inferInstanceAs (Decidable (_ ∧ _))

end

/-! ## One after another -/

/-- The processes of a list run one after another on the part, each returning a value. -/
inductive Sequential (rel : ι → (c : C) → V → R c → V → Prop) (progs : ι → Script C R X α) :
    V → List ι → V → Prop
  | nil (v : V) : Sequential rel progs v [] v
  | cons {i : ι} {is : List ι} {v v₁ v' : V} {a : α} : Runs (rel i) (progs i) v (.ok a) v₁ →
      Sequential rel progs v₁ is v' → Sequential rel progs v (i :: is) v'

/-- `rel` describes what the commands do to the part `view`. -/
structure Views (step : ι → (c : C) → W → R c × W) (looks writes : C → Bool) (view : W → V)
    (rel : ι → (c : C) → V → R c → V → Prop) : Prop where
  sound : ∀ i c w, rel i c (view w) (step i c w).1 (view (step i c w).2)
  keeps : ∀ i c w, writes c = false → view (step i c w).2 = view w
  blind : ∀ i c w v, looks c = false → rel i c v (step i c w).1 v
  looks : ∀ c, writes c = true → looks c = true

/-! ## The invariant -/

section
variable {step : ι → (c : C) → W → R c × W} {looks writes : C → Bool} {view : W → V}
  {rel : ι → (c : C) → V → R c → V → Prop} {progs : ι → Script C R X α}

/-- Process `i`, in whose place in the order the part goes from `v` to `v'`: what is left of its
script does not look at the part any more and ends with a value. -/
def Placed (rel : ι → (c : C) → V → R c → V → Prop) (progs : ι → Script C R X α) (looks : C → Bool)
    (i : ι) (pr : Proc C R X α) (v v' : V) : Prop :=
  ∃ q, Reaches (rel i) (progs i) v q v' ∧
    ((∃ b, pr = .running q b ∧ q.Tail fun c => looks c = false) ∨
      ∃ a, q = .ret a ∧ pr = .replied (.ok a))

/-- Process `i` has no place yet: its run so far is one on the part as it is now and, before its
first look, one on any part. -/
def Waiting (rel : ι → (c : C) → V → R c → V → Prop) (progs : ι → Script C R X α)
    (looks writes : C → Bool) (i : ι) (pr : Proc C R X α) (v : V) : Prop :=
  (∃ q b, pr = .running q b ∧
    (q.WritesLast (fun c => writes c = true) fun c => looks c = false) ∧
    Reaches (rel i) (progs i) v q v ∧ (b = false → ∀ u, Reaches (rel i) (progs i) u q u)) ∨
  ∃ x, pr = .replied (.error x)

/-- The processes of `is` take the part from `v` to `v'` in their places. -/
inductive Chain (rel : ι → (c : C) → V → R c → V → Prop) (progs : ι → Script C R X α)
    (looks : C → Bool) (procs : ι → Proc C R X α) : V → List ι → V → Prop
  | nil (v : V) : Chain rel progs looks procs v [] v
  | snoc {i : ι} {is : List ι} {v v₁ v' : V} : Chain rel progs looks procs v is v₁ →
      Placed rel progs looks i (procs i) v₁ v' → Chain rel progs looks procs v (is ++ [i]) v'

structure Ordered (rel : ι → (c : C) → V → R c → V → Prop) (progs : ι → Script C R X α)
    (looks writes : C → Bool) (v₀ v : V) (procs : ι → Proc C R X α) (order : List ι) : Prop where
  nodup : order.Nodup
  chain : Chain rel progs looks procs v₀ order v
  waiting : ∀ i ∉ order, Waiting rel progs looks writes i (procs i) v

theorem Chain.mono {procs procs' : ι → Proc C R X α} {v v' : V} {is : List ι}
    (h : Chain rel progs looks procs v is v')
    (hp : ∀ i ∈ is, ∀ u u', Placed rel progs looks i (procs i) u u' →
      Placed rel progs looks i (procs' i) u u') : Chain rel progs looks procs' v is v' := by
  induction h with
  | nil => exact .nil _
  | snoc _ hi ih => exact .snoc (ih fun i hi => hp i (by simp [hi])) (hp _ (by simp) _ _ hi)

theorem Waiting.of_view {i : ι} {pr : Proc C R X α} {v v' : V}
    (h : Waiting rel progs looks writes i pr v) (hv : v' = v ∨ ∀ p, pr ≠ .running p true) :
    Waiting rel progs looks writes i pr v' := by
  rcases hv with rfl | hno
  · exact h
  · rcases h with ⟨q, b, rfl, hl, -, hr⟩ | hx
    · have hb : b = false := by
        cases b with
        | false => rfl
        | true => exact absurd rfl (hno q)
      exact .inl ⟨q, b, rfl, hl, hr hb v', hr⟩
    · exact .inr hx

theorem Sequential.snoc {i : ι} {is : List ι} {v v₁ v' : V} {a : α}
    (h : Sequential rel progs v is v₁) (hi : Runs (rel i) (progs i) v₁ (.ok a) v') :
    Sequential rel progs v (is ++ [i]) v' := by
  induction h with
  | nil => exact .cons hi (.nil _)
  | cons hr _ ih => exact .cons hr (ih hi)

variable [DecidableEq ι]

/-- What a step of a placed process does: it stays placed, and the part is as it was. -/
theorem placed_next (hv : Views step looks writes view rel) {s : Pool ι C R X α W} {i : ι} {u u' : V}
    (h : Placed rel progs looks i (s.procs i) u u') :
    Placed rel progs looks i ((s.next step looks writes i).procs i) u u' ∧
      view (s.next step looks writes i).world = view s.world := by
  have hw : ∀ c, looks c = false → writes c = false := fun c hc => by
    by_contra h
    rw [hv.looks c (by simpa using h)] at hc
    cases hc
  obtain ⟨q, hq, ⟨b, hp, ht⟩ | ⟨a, rfl, hp⟩⟩ := h
  · cases q with
    | ret a =>
      simp only [next, hp, Function.update_self]
      exact ⟨⟨_, hq, .inr ⟨a, rfl, rfl⟩⟩, trivial⟩
    | exit x => exact ht.elim
    | call c k =>
      simp only [next, hp, Function.update_self]
      exact ⟨⟨_, .snoc hq (hv.blind i c s.world u' ht.1), .inl ⟨_, rfl, ht.2 _⟩⟩,
        hv.keeps i c _ (hw c ht.1)⟩
  · have hs : s.next step looks writes i = s := by simp only [next, hp]
    rw [hs]
    exact ⟨⟨_, hq, .inr ⟨a, rfl, hp⟩⟩, rfl⟩

theorem next_procs_ne {s : Pool ι C R X α W} {i j : ι} (h : j ≠ i) :
    (s.next step looks writes i).procs j = s.procs j := by
  unfold next
  split <;> simp [h]

section
variable {s : Pool ι C R X α W} {v₀ : V} {order : List ι} {i : ι}

/-- What a placed process does leaves the part as it was. -/
theorem view_next_of_mem (hv : Views step looks writes view rel) {v v' : V} {is : List ι}
    (h : Chain rel progs looks s.procs v is v') (hi : i ∈ is) :
    view (s.next step looks writes i).world = view s.world := by
  induction h with
  | nil => cases hi
  | @snoc j is v v₁ v' _ hp ih =>
    rcases List.mem_append.1 hi with hm | hm
    · exact ih hm
    · obtain rfl := List.mem_singleton.1 hm
      exact (placed_next hv hp).2

/-- The others go on in their places. -/
theorem Chain.next_of_ne {v v' : V} {is : List ι} (h : Chain rel progs looks s.procs v is v')
    (hi : i ∉ is) : Chain rel progs looks (s.next step looks writes i).procs v is v' := by
  refine h.mono fun j hj u u' hp => ?_
  have hji : j ≠ i := fun hji => hi (hji ▸ hj)
  rw [next_procs_ne hji]
  exact hp

variable (h : Ordered rel progs looks writes v₀ (view s.world) s.procs order)
include h

/-- The others wait on, if the part is as it was or they have not looked. -/
theorem Ordered.others {j : ι} (hj : j ≠ i) (hjo : j ∉ order)
    (hview : view (s.next step looks writes i).world = view s.world ∨
      ∀ p, s.procs j ≠ .running p true) :
    Waiting rel progs looks writes j ((s.next step looks writes i).procs j)
      (view (s.next step looks writes i).world) := by
  rw [next_procs_ne hj]
  exact (h.waiting j hjo).of_view hview

/-- A placed process goes on. -/
theorem Ordered.next_placed (hv : Views step looks writes view rel) (hi : i ∈ order) :
    Ordered rel progs looks writes v₀ (view (s.next step looks writes i).world)
      (s.next step looks writes i).procs order := by
  have hview : view (s.next step looks writes i).world = view s.world :=
    view_next_of_mem hv h.chain hi
  refine ⟨h.nodup, ?_, fun j hj => h.others (fun hji => hj (hji ▸ hi)) hj (.inl hview)⟩
  rw [hview]
  refine h.chain.mono fun j _ u u' hp => ?_
  by_cases hji : j = i
  · subst hji
    exact (placed_next hv hp).1
  · rw [next_procs_ne hji]
    exact hp

/-- A process takes the next place. -/
theorem Ordered.next_place (hi : i ∉ order)
    (hp : Placed rel progs looks i ((s.next step looks writes i).procs i) (view s.world)
      (view (s.next step looks writes i).world))
    (hno : view (s.next step looks writes i).world = view s.world ∨
      ∀ j p, j ≠ i → s.procs j ≠ .running p true) :
    Ordered rel progs looks writes v₀ (view (s.next step looks writes i).world)
      (s.next step looks writes i).procs (order ++ [i]) := by
  refine ⟨?_, .snoc (h.chain.next_of_ne hi) hp, fun j hj => ?_⟩
  · exact List.nodup_append.2 ⟨h.nodup, by simp, fun a ha b hb hab => hi (by
      rw [List.mem_singleton] at hb
      exact hb ▸ hab ▸ ha)⟩
  · simp only [List.mem_append, List.mem_singleton, not_or] at hj
    exact h.others hj.2 hj.1 (hno.imp_right fun hno p => hno j p hj.2)

/-- A process goes on waiting. -/
theorem Ordered.next_waiting (hi : i ∉ order)
    (hview : view (s.next step looks writes i).world = view s.world)
    (hw : Waiting rel progs looks writes i ((s.next step looks writes i).procs i)
      (view s.world)) :
    Ordered rel progs looks writes v₀ (view (s.next step looks writes i).world)
      (s.next step looks writes i).procs order := by
  refine ⟨h.nodup, ?_, fun j hj => ?_⟩
  · rw [hview]
    exact h.chain.next_of_ne hi
  · by_cases hji : j = i
    · subst hji
      exact hview ▸ hw
    · exact h.others hji hj (.inl hview)

end

/-- **One step of an undisturbed schedule**: the process that writes, or replies with a value without
having written, takes the next place. -/
theorem ordered_next (hv : Views step looks writes view rel) {s : Pool ι C R X α W} {v₀ : V}
    {order : List ι} (h : Ordered rel progs looks writes v₀ (view s.world) s.procs order) (i : ι)
    (hc : s.Clear writes i) :
    ∃ order', Ordered rel progs looks writes v₀ (view (s.next step looks writes i).world)
      (s.next step looks writes i).procs order' := by
  by_cases hi : i ∈ order
  · exact ⟨order, h.next_placed hv hi⟩
  rcases h.waiting i hi with ⟨q, b, hp, hl, hr, hfree⟩ | ⟨x, hp⟩
  · cases q with
    | ret a =>
      have hview : view (s.next step looks writes i).world = view s.world := by simp [next, hp]
      refine ⟨_, h.next_place hi ?_ (.inl hview)⟩
      rw [hview]
      exact ⟨_, hr, .inr ⟨a, rfl, by simp [next, hp]⟩⟩
    | exit x =>
      exact ⟨order, h.next_waiting hi (by simp [next, hp]) (.inr ⟨x, by simp [next, hp]⟩)⟩
    | call c k =>
      have hprocs : (s.next step looks writes i).procs i = .running (k (step i c s.world).1)
          (if writes c then false else b || looks c) := by simp [next, hp]
      have hworld : (s.next step looks writes i).world = (step i c s.world).2 := by
        simp [next, hp]
      by_cases hwr : writes c = true
      · -- the write
        have hno : ∀ j p, j ≠ i → s.procs j ≠ .running p true := fun j p hj hjp => by
          have := hc (by rw [hp]; exact hwr) j hj
          rw [hjp] at this
          cases this
        refine ⟨_, h.next_place hi ⟨_, .snoc hr ?_, .inl ⟨_, hprocs, hl.1 hwr _⟩⟩ (.inr hno)⟩
        rw [hworld]
        exact hv.sound i c s.world
      · have hwr' : writes c = false := by simpa using hwr
        have hview : view (s.next step looks writes i).world = view s.world := by
          rw [hworld, hv.keeps i c _ hwr']
        refine ⟨order, h.next_waiting hi hview (.inl ⟨_, _, hprocs, hl.2 _, .snoc hr ?_, ?_⟩)⟩
        · have := hv.sound i c s.world
          rwa [hv.keeps i c _ hwr'] at this
        · intro hb u
          simp only [hwr', Bool.false_eq_true, if_false, Bool.or_eq_false_iff] at hb
          exact .snoc (hfree hb.1 u) (hv.blind i c s.world u hb.2)
  · exact ⟨order, h.next_waiting hi (by simp [next, hp]) (.inr ⟨x, by simp [next, hp]⟩)⟩

theorem ordered_run (hv : Views step looks writes view rel) {s : Pool ι C R X α W} {v₀ : V}
    {order : List ι} (h : Ordered rel progs looks writes v₀ (view s.world) s.procs order)
    {is : List ι} (hu : s.Undisturbed step looks writes is) :
    ∃ order', Ordered rel progs looks writes v₀ (view (s.run step looks writes is).world)
      (s.run step looks writes is).procs order' := by
  induction is generalizing s order with
  | nil => exact ⟨order, h⟩
  | cons i is ih =>
    obtain ⟨order', h'⟩ := ordered_next hv h i hu.1
    exact ih h' hu.2

/-- **After an undisturbed schedule that lets every process reply, the part is as if the processes
that replied with a value had run one after another.** -/
theorem linearizes (hv : Views step looks writes view rel)
    (hl : ∀ i, (progs i).WritesLast (fun c => writes c = true) fun c => looks c = false)
    {w : W} {is : List ι} (hu : (start progs w).Undisturbed step looks writes is)
    (hdone : ∀ i, (((start progs w).run step looks writes is).procs i).reply.isSome) :
    ∃ order : List ι, order.Nodup ∧
      (∀ i, i ∈ order ↔
        ∃ a, (((start progs w).run step looks writes is).procs i).reply = some (.ok a)) ∧
      Sequential rel progs (view w) order (view ((start progs w).run step looks writes is).world) := by
  have h₀ : Ordered rel progs looks writes (view w) (view (start progs w).world)
      (start progs w).procs [] :=
    ⟨List.nodup_nil, .nil _, fun i _ => .inl ⟨_, _, rfl, hl i, .refl, fun _ _ => .refl⟩⟩
  obtain ⟨order, h⟩ := ordered_run hv h₀ hu
  generalize (start progs w).run step looks writes is = s at h hdone
  have hplaced : ∀ i v v', Placed rel progs looks i (s.procs i) v v' →
      ∃ a, (s.procs i).reply = some (.ok a) ∧ Runs (rel i) (progs i) v (.ok a) v' := by
    rintro i v v' ⟨q, hq, ⟨b, hp, -⟩ | ⟨a, rfl, hp⟩⟩
    · have := hdone i
      rw [hp] at this
      cases this
    · exact ⟨a, by rw [hp]; rfl, hq.runs (.ret a v')⟩
  refine ⟨order, h.nodup, fun i => ⟨fun hi => ?_, fun ⟨a, ha⟩ => ?_⟩, ?_⟩
  · have : ∀ {v is v'}, Chain rel progs looks s.procs v is v' → i ∈ is →
        ∃ a, (s.procs i).reply = some (.ok a) := by
      intro v is v' hch
      induction hch with
      | nil => intro hm; cases hm
      | snoc _ hp ih =>
        intro hm
        rcases List.mem_append.1 hm with hm | hm
        · exact ih hm
        · obtain rfl := List.mem_singleton.1 hm
          obtain ⟨a, ha, -⟩ := hplaced _ _ _ hp
          exact ⟨a, ha⟩
    exact this h.chain hi
  · by_contra hi
    rcases h.waiting i hi with ⟨q, b, hp, -⟩ | ⟨x, hp⟩ <;> (rw [hp] at ha; cases ha)
  · have hch := h.chain
    generalize view w = v₀, view s.world = v at hch ⊢
    clear h
    induction hch with
    | nil => exact .nil _
    | snoc _ hp ih =>
      obtain ⟨a, -, hr⟩ := hplaced _ _ _ hp
      exact ih.snoc hr

end

end Pool

end Shell
