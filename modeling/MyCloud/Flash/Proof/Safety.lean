import MyCloud.Flash.Rootfs

/-!
# Which device is flashed, and under which number

`mdadm`'s three attempts may end with any arrays running. The script then looks for the array that
holds the first partition; if there is none it takes the first `/dev/md*`, and it prints the preferred
minor without testing it.

* `flash_safe_iff`: the writes go to the array that holds the partition, and FLASH COMPLETE means
  preferred minor 1, exactly when a run that gets to `mkfs` finds the partition in `md1`, or finds it in
  another array and fails later.
* `assembled_safe`: it does if one of the first two attempts succeeds.
* `foreign_array`: the first attempts fail and another array of the host is wiped, or the array runs as
  `md127` and the script completes.
-/

set_option autoImplicit false

namespace Flash

open Shell Script

/-! ## Safety -/

/-- The device that `mkfs`, `mount` or `tar` is applied to. -/
def Cmd.target (h : Host) : Cmd → Option Node
  | .mkfs md | .mount md _ => some md
  | .tar mnt => h.mounts.lookup mnt
  | _ => none

/-- The node is a running array with the member `d`. -/
def Host.Holds (h : Host) (d : Bytes) : Node → Prop
  | .md k => ∃ ms, h.arrays.lookup k = some ms ∧ d ∈ ms
  | .other _ => False

instance (h : Host) (d : Bytes) (n : Node) : Decidable (h.Holds d n) :=
  match n with
  | .md k => decidable_of_iff ((h.arrays.lookup k).any (d ∈ ·)) (by
    simp [Host.Holds, Option.any_eq_true])
  | .other _ => .isFalse id

structure Safe (e : Env) (dev : Bytes) (h : Host) : Prop where
  target : ∀ q ∈ (flash_rootfs dev).trace (exec e) h, ∀ n, q.1.target q.2 = some n →
    q.2.Holds (part dev "1") n
  minor : ((flash_rootfs dev).eval (exec e) h).1 = .ok () →
    ((flash_rootfs dev).eval (exec e) h).2.preferred (part dev "1") = some 1

/-! ## The way to `mkfs` -/

section
variable (e : Env) (d1 d2 : Bytes) (h : Host)

/-- The host after the attempts to assemble the array. -/
def attempted : Host :=
  let h₁ := e.mdadm (.assembleUpdate d1 d2) (e.mdadm .stopScan h)
  let h₂ := e.mdadm (.assemble d1 d2) h₁
  if e.ok (.assembleUpdate d1 d2) then h₁
  else if e.ok (.assemble d1 d2) then h₂
  else e.mdadm .assembleScan h₂

/-- What `MD` names after them. -/
def chosen : Option Node :=
  match h.holder d1 with
  | some k => some (.md k)
  | none => if e.ok .lsMd then h.nodes.head? else none

/-- On the host `h` that the attempts leave, the script gets to `mkfs.ext3 md`. -/
structure Proceeds (md : Node) : Prop where
  tarball : e.ok .tarball = true
  lsblk : e.ok (.lsblk d1) = true
  chosen : chosen e d1 h = some md
  examine : e.ok (.examine false d1) = true
  superblock : (h.preferred d1).isSome
  detail : e.ok (.detail md) = true
  runs : h.runs md = true
  answer : e.answer = bytes "YES"

/-- No later command fails, and the new tree passes the checks. -/
structure Finishes (md : Node) : Prop where
  mkfs : e.ok (.mkfs md) = true
  mktemp : e.ok .mktemp = true
  mount : e.ok (.mount md e.mnt) = true
  tar : e.ok (.tar e.mnt) = true
  sync : e.ok .sync = true
  initmarker : e.finds .initmarker = true
  devfs : e.finds .devfs = true
  udevDisabled : e.finds .udevDisabled = true
  readelf : e.ok (.readelf e.mnt) = true
  align : e.libsystemdAlign = bytes "0x10000"
  fwHelper : e.finds .fwHelper = true
  pfeModules : e.finds .pfeModules = false
  umount : e.ok (.umount e.mnt) = true
  rmdir : e.ok (.rmdir e.mnt) = true
  tune2fs : e.ok (.tune2fs md) = true
  tune2fsList : e.ok (.tune2fsList md) = true
  examine : e.ok (.examine true d1) = true

end

variable {e : Env} {d1 d2 : Bytes} {h h' : Host} {md : Node}

theorem assemble_ok {r : Unit} :
    (assemble d1 d2).eval (exec e) h = (.ok r, h') ↔ h' = attempted e d1 d2 h := by
  simp only [assemble, attempted, sh_bind, eval_call, exec_stopScan, exec_assembleUpdate,
    exec_assemble, exec_assembleScan, eval_ite, pure_eq_ret, eval_ret]
  split
  · simp [eq_comm]
  · split <;> simp [eq_comm]

theorem find_md_ok {r : Option Node} :
    (find_md d1).eval (exec e) h = (.ok r, h') ↔
      e.ok (.lsblk d1) = true ∧ (h.holder d1 = none → e.ok .lsMd = true) ∧ r = chosen e d1 h ∧
        h' = h := by
  simp only [find_md, sh_bind, eval_call, exec_lsblk, chosen]
  cases e.ok (.lsblk d1) with
  | false => simp [exit]
  | true =>
    cases h.holder d1 with
    | some k =>
      constructor
      · intro hr
        cases hr
        simp
      · rintro ⟨-, -, rfl, rfl⟩
        rfl
    | none =>
      simp only [eval_call, exec_lsMd, if_true]
      cases e.ok .lsMd with
      | false => simp [exit]
      | true =>
        constructor
        · intro hr
          cases hr
          simp
        · rintro ⟨-, -, rfl, rfl⟩
          rfl

theorem must_ok {b : Bool} {r : Unit} :
    (must b).eval (exec e) h = (.ok r, h') ↔ b = true ∧ h' = h := by
  cases b <;> simp [must, exit, eq_comm]

theorem choose_ok : (choose d1 d2).eval (exec e) h = (.ok md, h') ↔
    Proceeds e d1 (attempted e d1 d2 h) md ∧ h' = attempted e d1 d2 h := by
  simp only [choose, sh_bind, eval_call, exec_tarball, exec_examine, eval_bind_ok, assemble_ok,
    find_md_ok, must_ok]
  constructor
  · rintro ⟨_, h, ⟨ht, rfl⟩, _, _, rfl, r, _, ⟨hl, hls, rfl, rfl⟩, _, _, ⟨hx, rfl⟩, hr⟩
    cases hc : chosen e d1 (attempted e d1 d2 h) with
    | none =>
      rw [hc] at hr
      cases hr
    | some md' =>
      rw [hc] at hr
      simp only [eval_call, exec_detail, exec_read, eval_bind_ok, must_ok, pure_eq_ret,
        eval_ret] at hr
      obtain ⟨_, _, ⟨hd, rfl⟩, _, _, ⟨ha, rfl⟩, hr⟩ := hr
      cases hr
      rw [Bool.and_eq_true] at hx hd
      exact ⟨⟨ht, hl, hc, hx.1, hx.2, hd.1, hd.2, by simpa using ha⟩, rfl⟩
  · rintro ⟨hp, rfl⟩
    refine ⟨(), h, ⟨hp.tarball, rfl⟩, (), _, rfl, _, _, ⟨hp.lsblk, ?_, rfl, rfl⟩, (), _, ⟨?_, rfl⟩, ?_⟩
    · intro hn
      have hc := hp.chosen
      rw [chosen, hn] at hc
      by_contra hl
      simp [hl] at hc
    · simp [hp.examine, hp.superblock]
    · rw [hp.chosen]
      simp only [eval_call, exec_detail, exec_read, eval_bind_ok, must_ok, pure_eq_ret, eval_ret]
      exact ⟨(), _, ⟨by simp [hp.detail, hp.runs], rfl⟩, (), _, ⟨by simp [hp.answer], rfl⟩, rfl⟩

/-! ## The writes -/

/-- The commands that have no device to write to. -/
def Cmd.Aside : Cmd → Prop
  | .mkfs _ | .mount _ _ | .tar _ => False
  | _ => True

theorem target_aside {c : Cmd} (hc : c.Aside) (h : Host) : c.target h = none := by
  cases c with
  | mkfs | mount | tar => exact hc.elim
  | _ => rfl

@[simp] theorem uses_must {P : Cmd → Prop} (b : Bool) : (must b).Uses P := by
  cases b <;> trivial

@[simp] theorem uses_must_bind {P : Cmd → Prop} {α : Type} (b : Bool) (f : Unit → Op α) :
    (must b >>= f).Uses P ↔ (b = true → (f ()).Uses P) := by
  cases b <;> simp [must, exit]

theorem assemble_aside (d1 d2 : Bytes) : (assemble d1 d2).Uses Cmd.Aside := by
  simp [assemble, Cmd.Aside]

theorem find_md_aside (d : Bytes) : (find_md d).Uses Cmd.Aside := by
  simp only [find_md, sh_bind, uses_call]
  refine ⟨trivial, fun r => ?_⟩
  rcases r with _ | _ | k
  · trivial
  · simp only [uses_call]
    refine ⟨trivial, fun r => ?_⟩
    cases r using Option.casesOn <;> trivial
  · trivial

theorem choose_aside (d1 d2 : Bytes) : (choose d1 d2).Uses Cmd.Aside := by
  simp only [choose, sh_bind, uses_call, uses_must_bind]
  refine ⟨trivial, fun _ _ => uses_bind (assemble_aside ..) fun _ =>
    uses_bind (find_md_aside _) fun md => ?_⟩
  simp only [uses_call, uses_must_bind]
  refine ⟨trivial, fun _ _ => ?_⟩
  cases md with
  | none => trivial
  | some md => simp [Cmd.Aside]

theorem verify_aside (mnt : Bytes) : (verify mnt).Uses Cmd.Aside := by
  simp only [verify, sh_bind, uses_call, uses_must_bind]
  refine ⟨trivial, fun _ => ⟨trivial, fun _ => ⟨trivial, fun _ _ => ⟨trivial, fun _ _ =>
    ⟨trivial, fun _ _ => ⟨trivial, fun _ => ⟨trivial, fun r => ?_⟩⟩⟩⟩⟩⟩⟩
  cases r using Option.casesOn with
  | none => trivial
  | some align => simp [Cmd.Aside]

theorem finish_aside (d : Bytes) (md : Node) (mnt : Bytes) : (finish d md mnt).Uses Cmd.Aside := by
  simp [finish, Cmd.Aside]

/-- The host once the new tree is on the array. -/
def filled (e : Env) (md : Node) (h : Host) : Host :=
  { (h.stamp md).stamp md with mounts := (e.mnt, md) :: (h.stamp md).mounts }

theorem mount_ok {mnt : Bytes} : e.ok (.mount md mnt) = true →
    exec e (.mount md mnt) h =
      (true, { h.stamp md with mounts := (mnt, md) :: h.mounts }) := fun hm => by
  rw [exec_mount, if_pos hm]

theorem mount_fails {mnt : Bytes} (hm : e.ok (.mount md mnt) = false) :
    exec e (.mount md mnt) h = (false, h) := by
  rw [exec_mount, hm, if_neg Bool.false_ne_true]

theorem fill_ok {mnt : Bytes} : (fill md).eval (exec e) h = (.ok mnt, h') ↔
    (e.ok (.mkfs md) = true ∧ e.ok .mktemp = true ∧ e.ok (.mount md e.mnt) = true ∧
      e.ok (.tar e.mnt) = true ∧ e.ok .sync = true) ∧ mnt = e.mnt ∧ h' = filled e md h := by
  simp only [fill, sh_bind, eval_call, exec_mkfs, exec_mktemp, eval_bind_ok, must_ok]
  cases e.ok .mktemp with
  | false => simp [exit]
  | true =>
    simp only [if_true, eval_call, eval_bind_ok, must_ok]
    cases hm : e.ok (.mount md e.mnt) with
    | false => simp [mount_fails hm]
    | true =>
      simp only [mount_ok hm, exec_tar, exec_sync, pure_eq_ret, eval_ret]
      constructor
      · rintro ⟨_, _, ⟨hk, rfl⟩, _, _, ⟨-, rfl⟩, _, _, ⟨ht, rfl⟩, _, _, ⟨hs, rfl⟩, hr⟩
        cases hr
        exact ⟨⟨hk, trivial, trivial, ht, hs⟩, rfl, rfl⟩
      · rintro ⟨⟨hk, -, -, ht, hs⟩, rfl, rfl⟩
        exact ⟨(), _, ⟨hk, rfl⟩, (), _, ⟨trivial, rfl⟩, (), _, ⟨ht, rfl⟩, (), _, ⟨hs, rfl⟩, rfl⟩

theorem stamp_arrays (md : Node) (h : Host) : (h.stamp md).arrays = h.arrays := by
  cases md with
  | md k =>
    simp only [Host.stamp]
    split <;> rfl
  | other => rfl

theorem trace_must_bind {α : Type} (b : Bool) (f : Unit → Op α) :
    (must b >>= f).trace (exec e) h = if b then (f ()).trace (exec e) h else [] := by
  cases b <;> rfl

/-- **The three writes go to the device `MD` names**, and the arrays are as they were. -/
theorem fill_target {q : Cmd × Host} (hq : q ∈ (fill md).trace (exec e) h) {n : Node}
    (hn : q.1.target q.2 = some n) : n = md ∧ q.2.arrays = h.arrays := by
  simp only [fill, sh_bind, trace_call, exec_mkfs, exec_mktemp, trace_must_bind] at hq
  rcases List.mem_cons.1 hq with rfl | hq
  · exact ⟨(Option.some.inj hn).symm, rfl⟩
  split at hq
  case isFalse => cases hq
  rcases List.mem_cons.1 hq with rfl | hq
  · cases hn
  cases hk : e.ok .mktemp with
  | false =>
    rw [hk] at hq
    cases hq
  | true =>
    rw [hk] at hq
    simp only [if_true, trace_call, trace_must_bind] at hq
    rcases List.mem_cons.1 hq with rfl | hq
    · exact ⟨(Option.some.inj hn).symm, stamp_arrays md h⟩
    cases hm : e.ok (.mount md e.mnt) with
    | false =>
      rw [mount_fails hm] at hq
      cases hq
    | true =>
      rw [mount_ok hm] at hq
      rcases List.mem_cons.1 hq with rfl | hq
      · refine ⟨?_, (stamp_arrays md _).trans (stamp_arrays md h)⟩
        simpa [Cmd.target, eq_comm] using hn
      split at hq
      case isFalse => cases hq
      rcases List.mem_cons.1 hq with rfl | hq
      · cases hn
      split at hq <;> cases hq

/-! ## The preferred minor -/

/-- A write to the array that holds `d` leaves its number in the superblock of `d`. -/
theorem stamp_preferred {k : ℕ} {ms : List Bytes} (hk : h.arrays.lookup k = some ms) (hd : d1 ∈ ms)
    (hs : (h.preferred d1).isSome) : (h.stamp (.md k)).preferred d1 = some k := by
  obtain ⟨p, hp⟩ := Option.isSome_iff_exists.1 hs
  simp [Host.stamp, hk, hd, hp]

theorem stamp_keeps {k : ℕ} (hp : h.preferred d1 = some k) :
    (h.stamp (.md k)).preferred d1 = some k := by
  simp only [Host.stamp]
  split
  · simp [hp]
  · exact hp

theorem verify_ok {mnt : Bytes} {r : Unit} : (verify mnt).eval (exec e) h = (.ok r, h') ↔
    (e.finds .initmarker = true ∧ e.finds .devfs = true ∧ e.finds .udevDisabled = true ∧
      e.ok (.readelf mnt) = true ∧ e.libsystemdAlign = bytes "0x10000" ∧
      e.finds .fwHelper = true ∧ e.finds .pfeModules = false) ∧ h' = h := by
  simp only [verify, sh_bind, eval_call, exec_check, exec_readelf, eval_bind_ok, must_ok]
  cases e.ok (.readelf mnt) with
  | false => simp [exit]
  | true =>
    simp only [if_true, eval_call, exec_check, eval_bind_ok, must_ok, decide_eq_true_eq,
      Bool.not_eq_true']
    constructor
    · rintro ⟨_, _, ⟨h1, rfl⟩, _, _, ⟨h2, rfl⟩, _, _, ⟨h3, rfl⟩, _, _, ⟨h4, rfl⟩, _, _, ⟨h5, rfl⟩, h6,
        rfl⟩
      exact ⟨⟨h1, h2, h3, trivial, h4, h5, h6⟩, rfl⟩
    · rintro ⟨⟨h1, h2, h3, -, h4, h5, h6⟩, rfl⟩
      exact ⟨(), _, ⟨h1, rfl⟩, (), _, ⟨h2, rfl⟩, (), _, ⟨h3, rfl⟩, (), _, ⟨h4, rfl⟩, (), _, ⟨h5, rfl⟩,
        h6, rfl⟩

/-- The end of the script, for a partition whose superblock has the number of the array. -/
theorem finish_ok {k : ℕ} {mnt : Bytes} {r : Unit} (hp : h.preferred d1 = some k) :
    (∃ h', (finish d1 (.md k) mnt).eval (exec e) h = (.ok r, h')) ↔
      e.ok (.umount mnt) = true ∧ e.ok (.rmdir mnt) = true ∧ e.ok (.tune2fs (.md k)) = true ∧
        e.ok (.tune2fsList (.md k)) = true ∧ e.ok (.examine true d1) = true ∧ e.ok .sync = true := by
  have hp' := stamp_keeps (h := { h with mounts := h.mounts.filter (·.1 ≠ mnt) }) hp
  simp only [finish, sh_bind, eval_call, exec_umount, exec_rmdir, exec_tune2fs, exec_tune2fsList,
    exec_examine, exec_stop, exec_sync, eval_bind_ok, must_ok]
  cases e.ok (.umount mnt) with
  | false => simp
  | true =>
    simp only [if_true]
    constructor
    · rintro ⟨_, _, _, ⟨-, rfl⟩, _, _, ⟨h2, rfl⟩, _, _, ⟨h3, rfl⟩, _, _, ⟨h4, rfl⟩, _, _,
        ⟨h5, rfl⟩, h6, -⟩
      rw [Bool.and_eq_true] at h5
      exact ⟨trivial, h2, h3, h4, h5.1, h6⟩
    · rintro ⟨-, h2, h3, h4, h5, h6⟩
      exact ⟨_, (), _, ⟨trivial, rfl⟩, (), _, ⟨h2, rfl⟩, (), _, ⟨h3, rfl⟩, (), _, ⟨h4, rfl⟩, (), _,
        ⟨by rw [h5, hp']; rfl, rfl⟩, h6, rfl⟩

theorem finish_preferred {k : ℕ} {mnt : Bytes} (hp : h.preferred d1 = some k) :
    ((finish d1 (.md k) mnt).eval (exec e) h).2.preferred d1 = some k := by
  refine eval_keeps (P := fun c => ∀ h : Host, h.preferred d1 = some k →
    (exec e c h).2.preferred d1 = some k) (I := fun h : Host => h.preferred d1 = some k) ?_
    (fun _ hc => hc) hp
  simp only [finish, sh_bind, uses_call, uses_must_bind, exec_rmdir, exec_tune2fs, exec_tune2fsList,
    exec_examine, exec_sync, exec_umount, exec_stop, uses_must]
  refine ⟨fun h hp => ?_, fun _ _ => ⟨fun _ => id, fun _ _ => ⟨fun _ => stamp_keeps, fun _ _ =>
    ⟨fun _ => id, fun _ _ => ⟨fun _ => id, fun _ _ => ⟨fun h hp => ?_, fun _ => ⟨fun _ => id,
      fun _ => trivial⟩⟩⟩⟩⟩⟩⟩
  · split <;> exact hp
  · split
    · exact stamp_keeps hp
    · exact hp

/-! ## The device -/

theorem holds_of_holder {k : ℕ} (hk : h.holder d1 = some k) :
    ∃ ms, h.arrays.lookup k = some ms ∧ d1 ∈ ms := by
  obtain ⟨a, ha, rfl⟩ := Option.map_eq_some_iff.1 hk
  exact ⟨a.2, AList.mem_lookup_iff.2 (List.mem_of_find?_eq_some ha),
    by simpa using List.find?_some ha⟩

theorem not_holds_of_no_holder (hn : h.holder d1 = none) (md : Node) : ¬ h.Holds d1 md := by
  cases md with
  | other => exact id
  | md k =>
    rintro ⟨ms, hk, hd⟩
    rw [Host.holder, Option.map_eq_none_iff, List.find?_eq_none] at hn
    exact hn ⟨k, ms⟩ (AList.mem_lookup_iff.1 hk) (by simpa using hd)

theorem chosen_of_holder {k : ℕ} (hk : h.holder d1 = some k) : chosen e d1 h = some (.md k) := by
  rw [chosen, hk]

section
variable {dev : Bytes}

/-- The run from `mkfs` on. -/
theorem flash_eval (hp : Proceeds e (part dev "1") (attempted e (part dev "1") (part dev "2") h) md) :
    (flash_rootfs dev).eval (exec e) h =
      (fill md >>= fun mnt => verify mnt >>= fun _ => finish (part dev "1") md mnt).eval (exec e)
        (attempted e (part dev "1") (part dev "2") h) := by
  rw [flash_rootfs, eval_bind, choose_ok.2 ⟨hp, rfl⟩]

/-- FLASH COMPLETE, for a partition in the array that was found. -/
theorem complete_iff {k : ℕ} {h₁ : Host} (hk : h₁.holder d1 = some k) (hs : (h₁.preferred d1).isSome) :
    ((fill (.md k) >>= fun mnt => verify mnt >>= fun _ => finish d1 (.md k) mnt).eval (exec e) h₁).1 =
        .ok () ↔ Finishes e d1 (.md k) := by
  obtain ⟨ms, hms, hd⟩ := holds_of_holder hk
  have hpref : (filled e (.md k) h₁).preferred d1 = some k := stamp_keeps (stamp_preferred hms hd hs)
  have hok : ∀ {α : Type} (p : Op α) (a : α) (w : Host), (p.eval (exec e) w).1 = .ok a ↔
      ∃ w', p.eval (exec e) w = (.ok a, w') := fun p a w => by
    rcases p.eval (exec e) w with ⟨r, w'⟩
    simp
  rw [hok]
  simp only [eval_bind_ok, fill_ok, verify_ok]
  constructor
  · rintro ⟨w', _, _, ⟨⟨h1, h2, h3, h4, h5⟩, rfl, rfl⟩, _, _,
      ⟨⟨h6, h7, h8, h9, h10, h11, h12⟩, rfl⟩, hf⟩
    obtain ⟨h13, h14, h15, h16, h17, -⟩ := (finish_ok hpref).1 ⟨_, hf⟩
    exact ⟨h1, h2, h3, h4, h5, h6, h7, h8, h9, h10, h11, h12, h13, h14, h15, h16, h17⟩
  · intro hf
    obtain ⟨w', hw⟩ := (finish_ok (r := ()) hpref).2
      ⟨hf.umount, hf.rmdir, hf.tune2fs, hf.tune2fsList, hf.examine, hf.sync⟩
    exact ⟨w', _, _, ⟨⟨hf.mkfs, hf.mktemp, hf.mount, hf.tar, hf.sync⟩, rfl, rfl⟩, (), _,
      ⟨⟨hf.initmarker, hf.devfs, hf.udevDisabled, hf.readelf, hf.align, hf.fwHelper, hf.pfeModules⟩,
        rfl⟩, hw⟩

theorem complete_preferred {k : ℕ} {h₁ : Host} (hk : h₁.holder d1 = some k)
    (hs : (h₁.preferred d1).isSome)
    (hr : (fill (.md k) >>= fun mnt => verify mnt >>= fun _ => finish d1 (.md k) mnt).eval (exec e)
      h₁ = (.ok (), h')) : h'.preferred d1 = some k := by
  obtain ⟨ms, hms, hd⟩ := holds_of_holder hk
  simp only [eval_bind_ok, fill_ok, verify_ok] at hr
  obtain ⟨_, _, ⟨-, rfl, rfl⟩, _, _, ⟨-, rfl⟩, hf⟩ := hr
  have hp : (filled e (.md k) h₁).preferred d1 = some k := stamp_keeps (stamp_preferred hms hd hs)
  have hfin : ((finish d1 (.md k) e.mnt).eval (exec e) _).2.preferred d1 = some k :=
    finish_preferred hp
  rwa [hf] at hfin

/-- Where `mkfs`, `mount` and `tar` write. -/
theorem target_iff (hp : Proceeds e (part dev "1") (attempted e (part dev "1") (part dev "2") h) md) :
    (∀ q ∈ (flash_rootfs dev).trace (exec e) h, ∀ n, q.1.target q.2 = some n →
      q.2.Holds (part dev "1") n) ↔
    (attempted e (part dev "1") (part dev "2") h).Holds (part dev "1") md := by
  have htr : (flash_rootfs dev).trace (exec e) h =
      (choose (part dev "1") (part dev "2")).trace (exec e) h ++
        (fill md >>= fun mnt => verify mnt >>= fun _ => finish (part dev "1") md mnt).trace (exec e)
          (attempted e (part dev "1") (part dev "2") h) := by
    rw [flash_rootfs, trace_bind, choose_ok.2 ⟨hp, rfl⟩]
  rw [htr]
  constructor
  · intro ht
    exact ht (.mkfs md, _) (List.mem_append_right _ List.mem_cons_self) md rfl
  · intro hold q hq n hn
    rcases List.mem_append.1 hq with hq | hq
    · rw [target_aside (uses_of_trace (choose_aside ..) hq)] at hn
      cases hn
    rw [trace_bind] at hq
    rcases List.mem_append.1 hq with hq | hq
    · obtain ⟨rfl, ha⟩ := fill_target hq hn
      cases n with
      | md k => simpa only [Host.Holds, ha] using hold
      | other => exact hold
    · split at hq
      · have hv : ∀ mnt, (verify mnt >>= fun _ => finish (part dev "1") md mnt).Uses Cmd.Aside :=
          fun mnt => uses_bind (verify_aside mnt) fun _ => finish_aside ..
        rw [target_aside (uses_of_trace (hv _) hq)] at hn
        cases hn
      · cases hq

/-- **The script writes to the array that holds the partition only, and FLASH COMPLETE means preferred
minor 1, exactly when** a run that gets to `mkfs` found the partition in `md1`, or in another array and
fails after that. -/
theorem flash_safe_iff (e : Env) (dev : Bytes) (h : Host) :
    Safe e dev h ↔
      ∀ md, Proceeds e (part dev "1") (attempted e (part dev "1") (part dev "2") h) md →
        ∃ k, (attempted e (part dev "1") (part dev "2") h).holder (part dev "1") = some k ∧
          (k = 1 ∨ ¬ Finishes e (part dev "1") md) := by
  by_cases hex : ∃ md, Proceeds e (part dev "1") (attempted e (part dev "1") (part dev "2") h) md
  · obtain ⟨md, hp⟩ := hex
    have huniq : ∀ md', Proceeds e (part dev "1") (attempted e (part dev "1") (part dev "2") h) md' →
        md' = md := fun md' hp' => Option.some.inj (hp'.chosen.symm.trans hp.chosen)
    cases hk : (attempted e (part dev "1") (part dev "2") h).holder (part dev "1") with
    | none =>
      refine iff_of_false (fun hs => ?_) fun hc => ?_
      · exact not_holds_of_no_holder hk md ((target_iff hp).1 hs.target)
      · obtain ⟨k, hk', -⟩ := hc md hp
        cases hk'
    | some k =>
      obtain rfl : md = .md k := Option.some.inj (hp.chosen.symm.trans (chosen_of_holder hk))
      have ht := (target_iff hp).2 (holds_of_holder hk)
      have hc := complete_iff (e := e) hk hp.superblock
      constructor
      · intro hs md' hp'
        obtain rfl := huniq md' hp'
        refine ⟨k, rfl, ?_⟩
        by_cases hf : Finishes e (part dev "1") (.md k)
        · left
          have hm := hs.minor
          rw [flash_eval hp] at hm
          have hr := hc.2 hf
          have hpref := complete_preferred (e := e) hk hp.superblock (Prod.ext hr rfl)
          exact Option.some.inj (hpref.symm.trans (hm hr))
        · exact .inr hf
      · intro hcond
        refine ⟨ht, fun hr => ?_⟩
        rw [flash_eval hp] at hr ⊢
        obtain ⟨k', hk', h1 | hf⟩ := hcond _ hp
        · obtain rfl := Option.some.inj hk'
          subst h1
          exact complete_preferred hk hp.superblock (Prod.ext hr rfl)
        · exact absurd (hc.1 hr) hf
  · refine iff_of_true ⟨fun q hq n hn => ?_, fun hr => ?_⟩ fun md hp => absurd ⟨md, hp⟩ hex
    · rw [flash_rootfs, trace_bind] at hq
      rcases List.mem_append.1 hq with hq | hq
      · rw [target_aside (uses_of_trace (choose_aside ..) hq)] at hn
        cases hn
      · split at hq
        · rename_i hc
          exact absurd ⟨_, (choose_ok.1 hc).1⟩ hex
        · cases hq
    · rw [flash_rootfs, eval_bind] at hr
      split at hr
      · rename_i hc
        exact absurd ⟨_, (choose_ok.1 hc).1⟩ hex
      · cases hr

/-! ## The attempts -/

/-- `mdadm` as documented: an attempt for `/dev/md1` that succeeds leaves an array `md1` that holds the
first partition, and no other array does. -/
def AssemblesMd1 (e : Env) (d1 d2 : Bytes) : Prop :=
  (∀ h, e.ok (.assembleUpdate d1 d2) = true →
    (e.mdadm (.assembleUpdate d1 d2) h).holder d1 = some 1) ∧
  ∀ h, e.ok (.assemble d1 d2) = true → (e.mdadm (.assemble d1 d2) h).holder d1 = some 1

/-- **The first two attempts are safe**: what goes wrong comes after both have failed. -/
theorem assembled_safe (hm : AssemblesMd1 e (part dev "1") (part dev "2"))
    (hok : e.ok (.assembleUpdate (part dev "1") (part dev "2")) = true ∨
      e.ok (.assemble (part dev "1") (part dev "2")) = true) : Safe e dev h := by
  rw [flash_safe_iff]
  intro md _
  refine ⟨1, ?_, .inl rfl⟩
  unfold attempted
  dsimp only
  split
  · rename_i h1
    exact hm.1 _ h1
  · rename_i h1
    rw [if_pos (hok.resolve_left h1)]
    exact hm.2 _ (hok.resolve_left h1)

end

/-! ## Two hosts -/

def sdd : Bytes := bytes "/dev/sdd"

/-- The disk, and the host's own array `md0`. -/
def buildHost : Host where
  arrays := AList.singleton 0 [bytes "/dev/sda1", bytes "/dev/sdb1"]
  preferred d := if d = part sdd "1" ∨ d = part sdd "2" then some 1 else some 0
  nodes := [.md 0]
  mounts := []

/-- The first two attempts fail, the scan leaves the arrays `ms`, and everything else succeeds. -/
def scanned (ms : AList fun _ : ℕ => List Bytes) : Env where
  ok
    | .assembleUpdate _ _ | .assemble _ _ => false
    | _ => true
  mdadm
    | .assembleScan, h => { h with arrays := ms }
    | _, h => h
  answer := bytes "YES"
  mnt := bytes "/tmp/mnt"
  finds c := c ≠ .pfeModules
  libsystemdAlign := bytes "0x10000"

/-- The disk's array under the number it gets when the host assembles it. -/
def asMd127 : AList fun _ : ℕ => List Bytes :=
  buildHost.arrays.insert 127 [part sdd "1", part sdd "2"]

/-- **The scan does not run the disk's array and the host's own is wiped; or it runs it as `md127` and
FLASH COMPLETE is printed** with preferred minor 127. -/
theorem foreign_array :
    ¬ Safe (scanned buildHost.arrays) sdd buildHost ∧ ¬ Safe (scanned asMd127) sdd buildHost := by
  constructor
  · intro hs
    have hmem : ∃ q ∈ (flash_rootfs sdd).trace (exec (scanned buildHost.arrays)) buildHost,
        q.1.target q.2 = some (.md 0) ∧ ¬ q.2.Holds (part sdd "1") (.md 0) := by decide +kernel
    obtain ⟨q, hq, hn, hnot⟩ := hmem
    exact hnot (hs.target q hq _ hn)
  · intro hs
    have hp : ((flash_rootfs sdd).eval (exec (scanned asMd127)) buildHost).1 = .ok () := by
      decide +kernel
    have := hs.minor hp
    revert this
    decide +kernel

end Flash
