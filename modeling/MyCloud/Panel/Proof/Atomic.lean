import MyCloud.Panel.Proof.Runs

/-!
# Replacing smb.conf

An `Edit` is a call of `share_add_block` or `share_del_block`. It is stopped before any of its
commands, or in the middle of one (a copying command that fails still writes its first bytes, unless
the file cannot be opened for it).

* `after_smb`: smb.conf is the old text until the write-back, and what that wrote from then on.
* `edit_atomic_iff`: smb.conf is the old text or the complete new one exactly when the edit does not
  get to open smb.conf or its copies are complete; two coincidences of the texts apart.
* `truncated_media`: a write-back stopped at its first byte leaves an empty smb.conf.
-/

set_option autoImplicit false

namespace Panel

open Shell Script

inductive Edit
  | add (n : Bytes) (typ : ShareType) (owner : Bytes)
  | del (n : Bytes)

/-- The text the edit is to leave. -/
def Edit.intended (ed : Edit) (old : Bytes) : Bytes :=
  match ed with
  | .add n typ owner => old ++ shareBlock n typ owner
  | .del n => Panel.awkDel n old

/-- The state when the edit is stopped after `m` commands. -/
def Edit.after (ed : Edit) (e : Env) (m : ℕ) (w : World) : World :=
  match ed with
  | .add n typ owner => (share_add_block n typ owner).cut (exec e) m w
  | .del n => (share_del_block n).cut (exec e) m w

/-! ## The edit until it is stopped -/

/-- The temporary file of the edit, before the gate. -/
def Edit.tmp (ed : Edit) (e : Env) (old : Bytes) : Bytes :=
  match ed with
  | .add n typ owner => addTmp e n typ owner old
  | .del n => delTmp e n old

/-- `share_del_block` stops at once when there is no header. -/
def Edit.finds (ed : Edit) (e : Env) (old : Bytes) : Bool :=
  match ed with
  | .add .. => true
  | .del n => e.greps .delBlock n old

/-- The edit gets to its write-back, the fifth command of both helpers, and that opens smb.conf. -/
def Edit.Writes (ed : Edit) (e : Env) (m : ℕ) (old : Bytes) : Prop :=
  5 ≤ m ∧ ed.finds e old = true ∧ e.ok .mktemp = true ∧
    e.ok (.testparm (ed.tmp e old)) = true ∧ e.opens (.writeConf (ed.tmp e old)) = true

theorem cut_quiet {α : Type} {p : Op α} (hp : p.Uses Cmd.Quiet) (e : Env) (m : ℕ) (w : World) :
    (p.cut (exec e) m w).smb = w.smb :=
  cut_keeps (I := fun w' => w'.smb = w.smb) hp (fun _ hc w' h => (quiet_smb e hc w').trans h) m rfl

theorem quiet_rm : Cmd.Quiet .rm := trivial

theorem quiet_reload : Cmd.Quiet .reload := trivial

/-- The commands after the write-back leave smb.conf alone. -/
theorem cut_rest {α : Type} {p : Op α} (hp : p.Uses Cmd.Quiet) (e : Env) (m : ℕ) (w : World) :
    ((Script.call .rm fun _ => p : Op α).cut (exec e) m w).smb = w.smb :=
  cut_quiet ((uses_call _ _).2 ⟨quiet_rm, fun _ => hp⟩) e m w

theorem add_after (n : Bytes) (typ : ShareType) (owner : Bytes) (e : Env) (m : ℕ) (w : World) :
    ((share_add_block n typ owner).cut (exec e) m w).smb =
      if 5 ≤ m ∧ e.ok .mktemp = true ∧ e.ok (.testparm (addTmp e n typ owner w.smb)) = true then
        addConf e n typ owner w.smb
      else w.smb := by
  rcases m with _ | _ | _ | _ | _ | m
  · simp
  iterate 4 simp [share_add_block, die]
  · have hq := fun w' => cut_rest ((uses_sh _).2 quiet_reload) e m w'
    by_cases hm : e.ok .mktemp = true
    · by_cases ht : e.ok (.testparm (addTmp e n typ owner w.smb)) = true
      · simp only [addTmp] at ht
        simp [share_add_block, die, addConf, addTmp, hm, ht, hq]
      · simp only [addTmp] at ht
        simp [share_add_block, die, addTmp, hm, ht]
    · simp [share_add_block, die, hm]

theorem del_after (n : Bytes) (e : Env) (m : ℕ) (w : World) :
    ((share_del_block n).cut (exec e) m w).smb =
      if 5 ≤ m ∧ e.greps .delBlock n w.smb = true ∧ e.ok .mktemp = true ∧
          e.ok (.testparm (delTmp e n w.smb)) = true then
        delConf e n w.smb
      else w.smb := by
  rcases m with _ | _ | _ | _ | _ | m
  · simp
  iterate 4 simp [share_del_block, die]
  · have hrl : (Script.call .reload fun _ => .ret true : Op Bool).Uses Cmd.Quiet :=
      (uses_call _ _).2 ⟨quiet_reload, fun _ => trivial⟩
    have hq := fun w' => cut_rest hrl e m w'
    by_cases hg : e.greps .delBlock n w.smb = true
    · have hg' := hg
      simp only [Env.greps, Bool.and_eq_true] at hg'
      by_cases hm : e.ok .mktemp = true
      · by_cases ht : e.ok (.testparm (delTmp e n w.smb)) = true
        · have ht' := ht
          simp only [delTmp] at ht'
          simp [share_del_block, die, delConf, delTmp, hg, hg', hm, ht', hq]
        · have ht' := ht
          simp only [delTmp] at ht'
          simp [share_del_block, die, delTmp, hg', hm, ht']
      · simp [share_del_block, die, hg', hm]
    · have hg' : ¬ (e.ok (.grepHeader .delBlock n) = true ∧ hasHeader n w.smb = true) := by
        simpa [Env.greps] using hg
      simp [share_del_block, hg, hg']

theorem after_writes {ed : Edit} {e : Env} {m : ℕ} {w : World} (h : ed.Writes e m w.smb) :
    (ed.after e m w).smb = e.written (.writeConf (ed.tmp e w.smb)) (ed.tmp e w.smb) := by
  obtain ⟨hm, hf, ht, hp, ho⟩ := h
  refine Eq.trans ?_ (Env.copiedBack_opens ho w.smb)
  cases ed with
  | add n typ owner => exact (add_after n typ owner e m w).trans (if_pos ⟨hm, ht, hp⟩)
  | del n => exact (del_after n e m w).trans (if_pos ⟨hm, hf, ht, hp⟩)

theorem after_not_writes {ed : Edit} {e : Env} {m : ℕ} {w : World} (h : ¬ ed.Writes e m w.smb) :
    (ed.after e m w).smb = w.smb := by
  cases ed with
  | add n typ owner =>
    refine (add_after n typ owner e m w).trans (ite_eq_right_iff.2 fun ⟨hm, ht, hp⟩ => ?_)
    exact Env.copiedBack_unopened (fun ho => h ⟨hm, rfl, ht, hp, ho⟩) w.smb
  | del n =>
    refine (del_after n e m w).trans (ite_eq_right_iff.2 fun ⟨hm, hf, ht, hp⟩ => ?_)
    exact Env.copiedBack_unopened (fun ho => h ⟨hm, hf, ht, hp, ho⟩) w.smb

/-! ## When the replacement is atomic -/

/-- The bytes of each copy that are written make up the old text or the new one. -/
def Edit.Whole (ed : Edit) (e : Env) (old : Bytes) : Prop :=
  match ed with
  | .add n typ owner =>
    let block := shareBlock n typ owner
    let i := e.reaches .catConf old.length
    let j := e.reaches (.append (old.take i) block) block.length
    let k := e.reaches (.writeConf (old.take i ++ block.take j)) (i + j)
    (i = old.length ∧ j = block.length ∧ k = i + j) ∨ (k = old.length ∧ old.drop i <+: block)
  | .del n =>
    let rest := Panel.awkDel n old
    let i := e.reaches (.awkDel n) rest.length
    let k := e.reaches (.writeConf (rest.take i)) i
    k = rest.length ∨ (k = old.length ∧ old <+: rest)

section
variable {α : Type} {a b : List α} {i j k : ℕ}

theorem take_prefix_eq (hk : k ≤ b.length) : b.take k = a ↔ k = a.length ∧ a <+: b := by
  constructor
  · rintro rfl
    exact ⟨by simp [hk], List.take_prefix _ _⟩
  · rintro ⟨rfl, hp⟩
    exact (List.prefix_iff_eq_take.1 hp).symm

theorem take_pieces_eq_append (hi : i ≤ a.length) (hj : j ≤ b.length) (hk : k ≤ i + j) :
    (a.take i ++ b.take j).take k = a ++ b ↔ i = a.length ∧ j = b.length ∧ k = i + j := by
  constructor
  · intro h
    have hl := congrArg List.length h
    simp only [List.length_take, List.length_append] at hl
    omega
  · rintro ⟨rfl, rfl, rfl⟩
    simp

theorem take_pieces_eq_left (hi : i ≤ a.length) (hj : j ≤ b.length) (hk : k ≤ i + j) :
    (a.take i ++ b.take j).take k = a ↔ k = a.length ∧ a.drop i <+: b := by
  have htake : i ≤ k → (a.take i ++ b.take j).take k = a.take i ++ (b.take (k - i)) := by
    intro hik
    rw [List.take_append, List.take_take, List.take_take, List.length_take]
    congr 2 <;> omega
  constructor
  · intro h
    have hl := congrArg List.length h
    simp only [List.length_take, List.length_append] at hl
    refine ⟨by omega, ?_⟩
    have h' : a.take i ++ b.take (k - i) = a.take i ++ a.drop i := by
      rw [← htake (by omega), h, List.take_append_drop]
    rw [← List.append_cancel_left h']
    exact List.take_prefix _ _
  · rintro ⟨rfl, hp⟩
    have hd : a.drop i = b.take (a.length - i) := by
      rw [List.prefix_iff_eq_take] at hp
      simpa using hp
    rw [htake hi, ← hd, List.take_append_drop]

end

/-- **smb.conf is the old text or the complete new one exactly when** the edit does not get to open
smb.conf for its write-back, or what its copies write makes up one of the two. -/
theorem edit_atomic_iff (ed : Edit) (e : Env) (m : ℕ) (w : World) :
    ((ed.after e m w).smb = w.smb ∨ (ed.after e m w).smb = ed.intended w.smb) ↔
      (ed.Writes e m w.smb → ed.Whole e w.smb) := by
  by_cases hw : ed.Writes e m w.smb
  · rw [after_writes hw]
    refine Iff.trans ?_ ⟨fun h _ => h, fun h => h hw⟩
    cases ed with
    | add n typ owner =>
      simp only [Edit.tmp, addTmp, Edit.intended, Edit.Whole, written_eq, List.length_append,
        List.length_take, min_eq_left (reaches_le _ _ _)]
      rw [or_comm]
      exact or_congr
        (take_pieces_eq_append (reaches_le _ _ _) (reaches_le _ _ _) (reaches_le _ _ _))
        (take_pieces_eq_left (reaches_le _ _ _) (reaches_le _ _ _) (reaches_le _ _ _))
    | del n =>
      simp only [Edit.tmp, delTmp, Edit.intended, Edit.Whole, written_eq, List.length_take,
        min_eq_left (reaches_le _ _ _), List.take_take]
      rw [or_comm]
      have hi := reaches_le e (.awkDel n) (awkDel n w.smb).length
      have hk := reaches_le e (.writeConf ((awkDel n w.smb).take
        (e.reaches (.awkDel n) (awkDel n w.smb).length)))
        (e.reaches (.awkDel n) (awkDel n w.smb).length)
      refine or_congr ?_ (take_prefix_eq (hk.trans hi))
      rw [take_prefix_eq (hk.trans hi)]
      exact ⟨fun h => h.1, fun h => ⟨h, List.prefix_rfl⟩⟩
  · rw [after_not_writes hw]
    exact iff_of_true (.inl rfl) fun h => absurd h hw

/-- The write-back fails after it has emptied smb.conf. -/
def noRoom : Env where
  outcome c := match c with
    | .writeConf _ => .fail 0
    | _ => .ok
  probe _ := none

/-- `share-add media guest` on the box as built, with no room for the write-back. -/
theorem truncated_media :
    let ed := Edit.add (bytes "media") .guest []
    let w := stage3World ∅
    ¬ ((ed.after noRoom 5 w).smb = w.smb ∨ (ed.after noRoom 5 w).smb = ed.intended w.smb) := by
  decide +kernel

end Panel
