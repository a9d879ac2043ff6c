import MyCloud.Panel.Proof.Known
import MyCloud.Recycle.Bin

/-!
# How long a deleted file is kept

The purge tests the modification time, and a deletion keeps it: no share sets `recycle:touch_mtime`
(`known_share`). So the age of a file in the bin counts from its last change, not from its deletion.

* `retained_iff`: deleted files are kept for 30 days exactly when no purge in that time meets one last
  modified 31 days before.
* `old_file_purged`: a file 40 days old is gone the night after its deletion.
-/

set_option autoImplicit false

namespace Recycle

open Shell Panel

/-! ## Files in the bin -/

/-- The event puts something else at `q`, or takes the file there away. -/
def Event.Touches (q : Path) : Event → Prop
  | .write p | .delete _ p | .remove p => p = q
  | .purge | .panel _ _ => False

/-- After `es` the file deleted at time `t` was moved to `q`, and nobody has removed it there by hand;
its modification time is `m`. -/
inductive Recycled (v : VfsRecycle) (b : Box) : List (ℕ × Event) → ℕ → ℕ → Path → Prop
  | moved {es : List (ℕ × Event)} {d m : ℕ} {u : Bytes} {p q : Path} :
      moves v (run v b es) u p = some q → (run v b es).files p = some m →
      Recycled v b (es ++ [(d, .delete u p)]) ((run v b es).now + d) m q
  | kept {es : List (ℕ × Event)} {t m d : ℕ} {q : Path} {ev : Event} : Recycled v b es t m q →
      ¬ ev.Touches q → Recycled v b (es ++ [(d, ev)]) t m q
  | rewritten {es : List (ℕ × Event)} {t m d : ℕ} {q : Path} : Recycled v b es t m q →
      Recycled v b (es ++ [(d, .write q)]) t ((run v b es).now + d) q

/-- A file moved into a bin at time `t` is there at every time before `t` and 30 days. -/
def Retained (v : VfsRecycle) (b : Box) (es : List (ℕ × Event)) : Prop :=
  ∀ es', es' <+: es → ∀ t m q, Recycled v b es' t m q → (run v b es').now < t + 30 * day →
    ((run v b es').files q).isSome

/-- No purge within 30 days of a file's deletion finds it last modified 31 days before. -/
def Recent (v : VfsRecycle) (b : Box) (es : List (ℕ × Event)) : Prop :=
  ∀ es' d, es' ++ [(d, .purge)] <+: es → ∀ t m q, Recycled v b es' t m q →
    (run v b es').now + d < t + 30 * day → (run v b es').now + d < m + 31 * day

/-- The commands of the panel succeed. -/
def Event.Works : Event → Prop
  | .panel e _ => Succeeds e
  | _ => True

/-! ## The shares -/

/-- What a share says about its bin. -/
structure KeepsVersions (ls : List Line) : Prop where
  versions : isOn "recycle:versions" ls = true
  touch : isOn "recycle:touch_mtime" ls = false
  repository : ∀ u, ∃ r, repository ls u = bytes ".recycle" :: r :: []

theorem keepsVersions_share (n o : Bytes) (typ : ShareType) :
    KeepsVersions (shareLines n typ o) := by
  cases typ <;> exact ⟨rfl, rfl, fun _ => ⟨_, rfl⟩⟩

theorem keepsVersions_public : KeepsVersions publicLines := ⟨rfl, rfl, fun _ => ⟨_, rfl⟩⟩

theorem keepsVersions_alpha : KeepsVersions alphaLines := ⟨rfl, rfl, fun _ => ⟨_, rfl⟩⟩

/-- **Every share keeps versions and modification times**, as stage 3 and `share_add_block` write it. -/
theorem known_share {t s : Bytes} {ls : List Line} (h : KnownConf t)
    (hs : shareSection t s = some ls) : KeepsVersions ls ∧ s.head? ≠ some '.'.toUInt8 := by
  unfold shareSection at hs
  split at hs
  · cases hs
  rename_i hg
  obtain ⟨sec, hf, rfl⟩ := Option.map_eq_some_iff.1 hs
  have hsec : sec.1 = header s := by simpa using List.find?_some hf
  have hk := h.known sec (List.mem_of_find?_eq_some hf)
  cases hk with
  | stage3Global => exact absurd (header_inj.1 hsec).symm hg
  | stage3Public =>
    obtain rfl := header_inj.1 hsec
    exact ⟨keepsVersions_public, by decide⟩
  | stage3Alpha =>
    obtain rfl := header_inj.1 hsec
    exact ⟨keepsVersions_alpha, by decide⟩
  | share hn =>
    obtain rfl := header_inj.1 hsec
    exact ⟨keepsVersions_share .., fun hd => nameRe_notMem hn (by decide) (List.mem_of_head? hd)⟩

variable {v : VfsRecycle} {b : Box} {u : Bytes} {p q : Path} {m d : ℕ}

/-- A deletion moves a file to a free path in the bin of its share, and keeps its time. -/
theorem moves_some (hk : KnownConf b.world.smb) (h : moves v b u p = some q) :
    inBin q = true ∧ b.files q = none ∧ ∀ m, timeAfter b p m = m := by
  cases p with
  | nil => cases h
  | cons s r =>
    simp only [moves] at h
    split at h
    · rename_i ls hls
      obtain ⟨hv, hdot⟩ := known_share hk hls
      split at h
      · obtain ⟨q', hq, rfl⟩ := Option.map_eq_some_iff.1 h
        refine ⟨?_, by simpa using v.versions hv.versions hq, fun m => ?_⟩
        · obtain ⟨r', hr⟩ := hv.repository u
          obtain ⟨t, rfl⟩ := v.inRepository hq
          rw [hr]
          simp [inBin, hdot]
        · simp [timeAfter, hls, hv.touch]
      · cases h
    · cases h

/-! ## One event -/

theorem mtimeOver_iff {now : ℕ} : mtimeOver 30 now m = true ↔ m + 31 * day ≤ now := by
  unfold mtimeOver day
  rw [decide_eq_true_iff]
  omega

/-- The deletion leaves the file in the bin. -/
theorem step_moved (hk : KnownConf b.world.smb) (h : moves v b u p = some q)
    (hp : b.files p = some m) : (step v b (d, .delete u p)).files q = some m := by
  have h' : moves v { b with now := b.now + d } u p = some q := by
    cases p <;> exact h
  simp only [step, delete, h', Function.update_self, hp, Option.map_some]
  exact congrArg some ((moves_some (b := { b with now := b.now + d }) hk h').2.2 m)

/-- **What an event does to a file in the bin**: only a purge takes it away, for its modification
time. -/
theorem step_kept (hk : KnownConf b.world.smb) (hq : b.files q = some m) {ev : Event}
    (hn : ¬ ev.Touches q) :
    (step v b (d, ev)).files q = some m ∨
      (ev = .purge ∧ m + 31 * day ≤ b.now + d ∧ (step v b (d, ev)).files q = none) := by
  cases ev with
  | write p => exact .inl ((Function.update_of_ne (fun h => hn h.symm) _ _).trans hq)
  | remove p => exact .inl ((Function.update_of_ne (fun h => hn h.symm) _ _).trans hq)
  | panel e c => exact .inl hq
  | delete u p =>
    have hpq : q ≠ p := fun h => hn h.symm
    simp only [step, delete]
    split
    · rename_i r hr
      have hrq : q ≠ r := by
        rintro rfl
        rw [(moves_some (b := { b with now := b.now + d }) hk hr).2.1] at hq
        cases hq
      left
      simp only [Function.update_of_ne hrq, Function.update_of_ne hpq, hq]
    · split
      · exact .inl ((Function.update_of_ne hpq _ _).trans hq)
      · exact .inl hq
  | purge =>
    simp only [step, recycle_purge, hq]
    cases hm : mtimeOver 30 (b.now + d) m with
    | false => left; simp [hm]
    | true =>
      by_cases hb : inBin q = true
      · exact .inr ⟨trivial, mtimeOver_iff.1 hm, by simp [hb, hm]⟩
      · left; simp [hb]

theorem step_known {ev : Event} (hw : ev.Works) (hk : KnownConf b.world.smb) :
    KnownConf (step v b (d, ev)).world.smb := by
  cases ev with
  | write | remove | purge => exact hk
  | panel e c => exact knownConf_exec hw c hk
  | delete u p =>
    simp only [step, delete]
    split
    · exact hk
    · split <;> exact hk

@[simp] theorem step_now (x : ℕ × Event) : (step v b x).now = b.now + x.1 := by
  obtain ⟨d, ev⟩ := x
  cases ev with
  | delete u p =>
    simp only [step, delete]
    split
    · rfl
    · split <;> rfl
  | _ => rfl

/-! ## Runs -/

variable {es : List (ℕ × Event)} {t : ℕ}

@[simp] theorem run_snoc (x : ℕ × Event) : run v b (es ++ [x]) = step v (run v b es) x := by
  simp [run]

theorem run_now_le (b : Box) (es : List (ℕ × Event)) : b.now ≤ (run v b es).now := by
  induction es generalizing b with
  | nil => exact le_rfl
  | cons x es ih =>
    have hx := step_now (v := v) (b := b) x
    have hes := ih (step v b x)
    exact (hx ▸ Nat.le_add_right _ _).trans hes

/-- In less than 31 days no purge finds a file too old. -/
theorem recent_of_short (h : (run v b es).now < 31 * day) : Recent v b es := by
  rintro es' d ⟨post, rfl⟩ t m q - -
  have hle := run_now_le (v := v) (run v b (es' ++ [(d, .purge)])) post
  have happ : run v (run v b (es' ++ [(d, .purge)])) post = run v b (es' ++ [(d, .purge)] ++ post) :=
    (List.foldl_append ..).symm
  rw [happ, run_snoc, step_now] at hle
  dsimp only at hle
  omega

theorem run_known (hk : KnownConf b.world.smb) (hw : ∀ x ∈ es, x.2.Works) :
    KnownConf (run v b es).world.smb := by
  induction es generalizing b with
  | nil => exact hk
  | cons x es ih =>
    exact ih (step_known (hw x (by simp)) hk) fun y hy => hw y (List.mem_cons_of_mem _ hy)

theorem recycled_inBin (hk : KnownConf b.world.smb) (hw : ∀ x ∈ es, x.2.Works)
    (h : Recycled v b es t m q) : inBin q = true := by
  induction h with
  | moved hm =>
    exact (moves_some (run_known hk fun x hx => hw x (List.mem_append_left _ hx)) hm).1
  | kept _ _ ih | rewritten _ ih => exact ih fun x hx => hw x (List.mem_append_left _ hx)

/-- A file in the bin is there, with its time, as long as no purge meets it too old. -/
theorem recycled_files (hk : KnownConf b.world.smb) (hw : ∀ x ∈ es, x.2.Works)
    (hgood : ∀ es' d, es' ++ [(d, .purge)] <+: es → ∀ t m q, Recycled v b es' t m q →
      (run v b es').now + d < t + 30 * day → (run v b es').files q = some m →
        (run v b es').now + d < m + 31 * day)
    {es' : List (ℕ × Event)} (hes : es' <+: es) (h : Recycled v b es' t m q)
    (ht : (run v b es').now < t + 30 * day) : (run v b es').files q = some m := by
  have known : ∀ {es₁}, es₁ <+: es → KnownConf (run v b es₁).world.smb := fun hp =>
    run_known hk fun x hx => hw x (hp.subset hx)
  induction h with
  | moved hm hp =>
    rw [run_snoc]
    exact step_moved (known ((List.prefix_append _ _).trans hes)) hm hp
  | @kept es₁ t m d q ev h hn ih =>
    have hp := (List.prefix_append es₁ _).trans hes
    rw [run_snoc, step_now] at ht
    have hq := ih hp (by omega)
    rw [run_snoc]
    rcases step_kept (d := d) (known hp) hq hn with h' | ⟨rfl, hm, -⟩
    · exact h'
    · exact absurd (hgood es₁ d hes t m q h ht hq) (by omega)
  | rewritten =>
    rw [run_snoc]
    exact Function.update_self ..

/-- **Deleted files are kept for 30 days exactly when** no purge in that time meets one last modified
31 days before. -/
theorem retained_iff (v : VfsRecycle) (base : Base) (files : Path → Option ℕ)
    (now : ℕ) (es : List (ℕ × Event)) (hw : ∀ x ∈ es, x.2.Works) :
    Retained v (asBuilt base files now) es ↔ Recent v (asBuilt base files now) es := by
  have hk : KnownConf (asBuilt base files now).world.smb := knownConf_stage3
  constructor
  · intro hr
    have hgood : ∀ es' d, es' ++ [(d, .purge)] <+: es → ∀ t m q,
        Recycled v (asBuilt base files now) es' t m q →
        (run v (asBuilt base files now) es').now + d < t + 30 * day →
        (run v (asBuilt base files now) es').files q = some m →
          (run v (asBuilt base files now) es').now + d < m + 31 * day := by
      intro es' d hes t m q h ht hq
      by_contra hm
      have hb := recycled_inBin hk (fun x hx => hw x (hes.subset (List.mem_append_left _ hx))) h
      have hsome := hr _ hes t m q (.kept h nofun) (by rw [run_snoc, step_now]; exact ht)
      rw [run_snoc] at hsome
      have hover : mtimeOver 30 ((run v (asBuilt base files now) es').now + d) m = true :=
        mtimeOver_iff.2 (by omega)
      simp [step, recycle_purge, hb, hq, hover] at hsome
    intro es' d hes t m q h ht
    exact hgood es' d hes t m q h ht
      (recycled_files hk hw hgood ((List.prefix_append _ _).trans hes) h (by omega))
  · intro hr es' hes t m q h ht
    rw [recycled_files hk hw (fun es' d hes t m q h ht _ => hr es' d hes t m q h ht) hes h ht]
    rfl

/-! ## A photo -/

def photo : Path := [alpha, bytes "photos", bytes "img.jpg"]

/-- Noon, some days later, and 4:30 the next morning: the photo is written, deleted and purged. -/
def photoEvents (days : ℕ) : List (ℕ × Event) :=
  [(day / 2, .write photo), (days * day, .delete alpha photo), (59400, .purge)]

/-- A photo 10 days old is still there after the night, one 40 days old just when no purge met it. -/
theorem retained_photo : Retained keeptree (asBuilt ∅ (fun _ => none) 0) (photoEvents 10) ∧
    (Retained keeptree (asBuilt ∅ (fun _ => none) 0) (photoEvents 40) ↔
      Recent keeptree (asBuilt ∅ (fun _ => none) 0) (photoEvents 40)) := by
  have hw : ∀ days, ∀ x ∈ photoEvents days, x.2.Works := by simp [photoEvents, Event.Works]
  have hshort : (run keeptree (asBuilt ∅ (fun _ => none) 0) (photoEvents 10)).now < 31 * day := by
    simp [run, photoEvents, asBuilt, day]
  exact ⟨(retained_iff keeptree ∅ (fun _ => none) 0 (photoEvents 10) (hw 10)).2
    (recent_of_short hshort), retained_iff keeptree ∅ (fun _ => none) 0 (photoEvents 40) (hw 40)⟩

/-- **A photo 40 days old is gone the night after its deletion.** -/
theorem old_file_purged : ¬ Retained keeptree (asBuilt ∅ (fun _ => none) 0) (photoEvents 40) := by
  intro h
  have hmoved : Recycled keeptree (asBuilt ∅ (fun _ => none) 0)
      ([(day / 2, .write photo)] ++ [(40 * day, .delete alpha photo)]) (day / 2 + 40 * day)
      (day / 2) [alpha, bytes ".recycle", alpha, bytes "photos", bytes "img.jpg"] := by
    refine .moved (p := photo) ?_ ?_ <;> decide +kernel
  have := h (photoEvents 40) List.prefix_rfl _ _ _ (.kept hmoved nofun) (by decide +kernel)
  revert this
  decide +kernel

end Recycle
