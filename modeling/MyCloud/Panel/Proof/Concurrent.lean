import MyCloud.Panel.Proof.Change
import MyCloud.Panel.Stage3
import MyCloud.Shell.Pool

/-!
# Requests at the same time

The web server starts one `panel-op` for each request, and nothing keeps two of them apart: there is
no lock around the check of the header, the copy to the temporary file and the copy back. `serve` runs
any number of calls, one command of one of them at a time.

* `serialized`: if no request copies back smb.conf while another has it in hand (since its first look,
  until its own copy back or its reply), the text is the one that the requests with an OK reply make
  one after another, in some order.
* `lost_and_doubled`: without that, an acknowledged share is lost, or is there twice.
-/

set_option autoImplicit false

namespace Panel

open Shell Script

/-- No copy of smb.conf stops early, and `grep` works. Any other command may fail. -/
structure Works (e : Env) : Prop extends Copies e where
  grep : ∀ by_ n, e.ok (.grepHeader by_ n) = true

theorem Succeeds.works {e : Env} (h : Succeeds e) : Works e := ⟨h.copies, fun _ _ => h.ok _⟩

theorem Works.greps {e : Env} (h : Works e) (by_ : Caller) (n t : Bytes) :
    e.greps by_ n t = hasHeader n t := by
  simp [Env.greps, h.grep]

/-! ## One request -/

/-- What a call makes of smb.conf, or `none` if it refuses for what it finds there. -/
def Call.edit (c : Call) (t : Bytes) : Option Bytes :=
  match c.verb with
  | .shareAdd =>
    if hasHeader c.name t then none
    else c.shareType.map fun typ => t ++ shareBlock c.name typ (arg c.args 2)
  | .shareDel => if hasHeader c.name t then some (awkDel c.name t) else none
  | .userAdd =>
    some (if c.withShare ∧ hasHeader c.name t = false then t ++ shareBlock c.name .priv c.name else t)
  | .userDel => some (if hasHeader c.name t then awkDel c.name t else t)
  | _ => some t

theorem Change.edit_eq {e : Env} (he : Works e) {c : Call} {t t' : Bytes} (h : Change e c true t t') :
    c.edit t = some t' := by
  unfold Call.edit
  cases h with
  | shareAdd hv _ hg ht =>
    rw [he.greps] at hg
    simp only [hv, hg, ht, Bool.false_eq_true, if_false, Option.map_some]
  | userAdd hv _ _ hs hg =>
    rw [he.greps] at hg
    simp only [hv]
    rw [if_pos ⟨hs, hg⟩]
  | userAddOnly hv _ _ hs =>
    rw [he.greps] at hs
    simp only [hv]
    rw [if_neg hs]
  | shareDel hv _ _ hg | userDel hv _ _ hg =>
    rw [he.greps] at hg
    simp only [hv, hg, if_true]
  | shareDelOnly _ _ _ hg hg' =>
    rw [he.greps] at hg hg'
    rw [hg] at hg'
    cases hg'
  | userDelOnly hv _ _ hg =>
    rw [he.greps] at hg
    simp only [hv, hg, Bool.false_eq_true, if_false]
  | other h =>
    cases hv : c.verb <;> first | rfl | exact absurd hv fun hv => h (by simp [hv])

/-- `edit` is what a call that replies OK does, by itself. -/
theorem exec_edit {e : Env} (he : Works e) {c : Call} {w : World} (h : c.accepted e w = true) :
    c.edit w.smb = some (c.exec e w).2.smb :=
  (h ▸ exec_change he.toCopies c w).edit_eq he

theorem Change.distinct {e : Env} (he : Works e) {c : Call} {ok : Bool} {t t' : Bytes}
    (h : Change e c ok t t') (ht : Distinct t) : Distinct t' := by
  cases h with
  | refused | userAddOnly | shareDelOnly | userDelOnly | other => exact ht
  | shareAdd _ hn hg _ ho =>
    exact distinct_add ht hn (fun hp => nameRe_nl (ho hp)) (he.greps .. ▸ hg)
  | userAdd _ hn _ _ hg => exact distinct_add ht hn (fun _ => nameRe_nl hn) (he.greps .. ▸ hg)
  | shareDel | userDel => exact distinct_awkDel ht _

/-! ## Many requests -/

section
variable {ι : Type}

/-- The requests `call i` in flight, over the box. -/
abbrev Requests (ι : Type) := Pool ι Cmd Cmd.Out Bytes Bytes World

def Requests.start (call : ι → Call) (w : World) : Requests ι :=
  Pool.start (fun i => panel_op (call i).verb (call i).args (call i).stdin) w

variable [DecidableEq ι]

/-- The steps of `is`, one command of one request each. -/
def Requests.serve (s : Requests ι) (env : ι → Env) (is : List ι) : Requests ι :=
  s.run (fun i => exec (env i)) Cmd.looks Cmd.writes is

def Requests.reply (s : Requests ι) (i : ι) : Option (Except Bytes Bytes) := (s.procs i).reply

/-- Every request has its reply. -/
def Requests.Done (s : Requests ι) : Prop := ∀ i, (s.reply i).isSome

/-- The reply of request `i` is OK. -/
def Requests.Acknowledged (s : Requests ι) (i : ι) : Prop := ∃ m, s.reply i = some (.ok m)

/-- No request copies back smb.conf while another has it in hand. -/
def Requests.Undisturbed (s : Requests ι) (env : ι → Env) (is : List ι) : Prop :=
  Pool.Undisturbed (fun i => exec (env i)) Cmd.looks Cmd.writes s is

/-- The requests of a list executed one after another, from the text `t`. -/
def edits (call : ι → Call) (t : Bytes) (order : List ι) : Option Bytes :=
  order.foldlM (fun t i => (call i).edit t) t

omit [DecidableEq ι] in
theorem views_smb (env : ι → Env) : Pool.Views (fun i => exec (env i)) Cmd.looks Cmd.writes
    World.smb fun i => conf (env i) where
  sound i c w := conf_exec (env i) c w
  keeps i c w hc := exec_leaves (env i) (by simp [Cmd.Leaves, hc]) w
  blind i c w v hc := by
    cases c with
    | grepHeader | readConf | catConf | awkDel | writeConf => cases hc
    | append tmp text => exact ⟨by rw [exec_append], rfl⟩
    | _ => rfl
  looks c hc := by
    cases c with
    | writeConf => rfl
    | _ => cases hc

omit [DecidableEq ι] in
theorem sequential_edits {env : ι → Env} (he : ∀ i, Works (env i)) {call : ι → Call} {t t' : Bytes}
    {order : List ι}
    (h : Pool.Sequential (fun i => conf (env i))
      (fun i => panel_op (call i).verb (call i).args (call i).stdin) t order t') :
    edits call t order = some t' ∧ (Distinct t → Distinct t') := by
  induction h with
  | nil => exact ⟨rfl, id⟩
  | @cons i is t t₁ t' m hr _ ih =>
    have hc : Change (env i) (call i) true t t₁ := runs_change (he i).toCopies hr
    refine ⟨?_, fun ht => ih.2 (hc.distinct (he i) ht)⟩
    rw [edits, List.foldlM_cons, hc.edit_eq (he i)]
    exact ih.1

/-- **Requests that do not disturb each other leave smb.conf as if those with an OK reply had run one
after another**, so none of their edits is lost and no section is there twice. -/
theorem serialized (env : ι → Env) (he : ∀ i, Works (env i)) (call : ι → Call) (w : World)
    (is : List ι) (hu : (Requests.start call w).Undisturbed env is)
    (hdone : ((Requests.start call w).serve env is).Done) :
    ∃ order : List ι, order.Nodup ∧
      (∀ i, i ∈ order ↔ ((Requests.start call w).serve env is).Acknowledged i) ∧
      edits call w.smb order = some ((Requests.start call w).serve env is).world.smb ∧
      (Distinct w.smb → Distinct ((Requests.start call w).serve env is).world.smb) := by
  obtain ⟨order, hn, hmem, hs⟩ := Pool.linearizes (views_smb env)
    (fun i => panel_op_writes (call i).verb (call i).args (call i).stdin) hu hdone
  exact ⟨order, hn, hmem, sequential_edits he hs⟩

end

/-! ## Two requests -/

def addMovies : Call := ⟨.shareAdd, [bytes "movies", bytes "family"], []⟩

def addMusic : Call := ⟨.shareAdd, [bytes "music", bytes "guest"], []⟩

/-- The requests `a` (for `false`) and `b` (for `true`) after the steps `is`, from stage 3. -/
def both (a b : Call) (is : List Bool) : Requests Bool :=
  (Requests.start (fun i => if i then b else a) (stage3World ∅)).serve (fun _ => allOk) is

/-- Both replies are OK. -/
def bothOk (s : Requests Bool) : Bool := [false, true].all fun i => (s.reply i).any Except.isOk

/-- `n` of the 12 steps of the first request, the second, then the rest of the first. -/
def after (n : ℕ) : List Bool := .replicate n false ++ .replicate 12 true ++ .replicate (12 - n) false

theorem serialized_two : ∃ order : List Bool, order.Nodup ∧
    (∀ i, i ∈ order ↔ (both addMovies addMusic (after 0)).Acknowledged i) ∧
    edits (fun i => if i then addMusic else addMovies) (stage3World ∅).smb order =
      some (both addMovies addMusic (after 0)).world.smb ∧
    (Distinct (stage3World ∅).smb → Distinct (both addMovies addMusic (after 0)).world.smb) := by
  obtain ⟨order, hn, hmem, hs, hd⟩ := serialized (fun _ => allOk) (fun _ => succeeds_allOk.works)
    (fun i => if i then addMusic else addMovies) (stage3World ∅) (after 0)
    (by unfold Requests.Undisturbed; decide +kernel) (by unfold Requests.Done; decide +kernel)
  exact ⟨order, hn, hmem, hs, hd⟩

/-- **Two shares are added at the same time.** The one that copies back smb.conf between the other's copy
and copy back is lost, though its reply is OK; the one added twice, the second after the first's check
of the header, is there twice. -/
theorem lost_and_doubled :
    (bothOk (both addMovies addMusic (after 8)) ∧
      header (bytes "music") ∉ headers (both addMovies addMusic (after 8)).world.smb ∧
      ∀ order ∈ [[false, true], [true, false]],
        (edits (fun i => if i then addMusic else addMovies) stage3Conf order).any fun t =>
          header (bytes "music") ∈ headers t) ∧
    bothOk (both addMovies addMovies (after 1)) ∧
      (headers (both addMovies addMovies (after 1)).world.smb).count (header (bytes "movies")) = 2 := by
  decide +kernel

end Panel
