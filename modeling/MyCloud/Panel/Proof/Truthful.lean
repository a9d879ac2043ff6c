import MyCloud.Panel.Proof.Stores

/-!
# Is an OK reply true?

`Announced c w'` is what the OK reply of `c` says of the state `w'` it leaves. `Truthful e c w` is a
condition on the state before the call and on the commands that fail in it.

* `announced_iff`: after an OK reply, what it announces holds exactly when `Truthful` did.
* `hasHeader_addConf`, `hasHeader_delConf`: the two writers of smb.conf, when a copy stops early or
  does not begin.
* `admin_not_revoked`: `user-admin bob off` replies OK while `gpasswd` fails.
-/

set_option autoImplicit false

namespace Panel

open Shell

/-- What the OK reply of a call announces. -/
def Announced (c : Call) (w' : World) : Prop :=
  match c.verb with
  | .userAdd => c.name ∈ w'.accounts ∧ w'.passdb.lookup c.name = some c.password ∧
      (users, c.name) ∈ w'.groups
  | .userPass => w'.passdb.lookup c.name = some c.password
  | .userAdmin =>
    if arg c.args 1 = bytes "on" then (smbadmins, c.name) ∈ w'.groups
    else (smbadmins, c.name) ∉ w'.groups
  | .userDel => c.name ∉ w'.passdb ∧ c.name ∉ w'.accounts ∧ hasHeader c.name w'.smb = false
  | .shareAdd => hasHeader c.name w'.smb = true
  | .shareDel => hasHeader c.name w'.smb = false
  | _ => True

/-! ## When it holds -/

/-- Enough of the new section is written: its header is, or was in the old text already. -/
def Adds (e : Env) (n : Bytes) (typ : ShareType) (owner old : Bytes) : Prop :=
  let block := shareBlock n typ owner
  let i := e.reaches .catConf old.length
  let j := e.reaches (.append (old.take i) block) block.length
  let tmp := old.take i ++ block.take j
  let k := e.reaches (.writeConf tmp) (i + j)
  if e.opens (.writeConf tmp) then
    hasHeader n (old.take (min i k)) = true ∨ (header n).length + 1 ≤ min j (k - i)
  else hasHeader n old = true

/-- The copy back opens smb.conf, and no other line that begins with `[n]` is among the bytes
written. -/
def Removes (e : Env) (n old : Bytes) : Prop :=
  let rest := Panel.awkDel n old
  let i := e.reaches (.awkDel n) rest.length
  let k := e.reaches (.writeConf (rest.take i)) i
  e.opens (.writeConf (rest.take i)) = true ∧
  ∀ pre l post, skipFrom isHeader (header n) false (lines old) = pre ++ l :: post →
    header n <+: l → k < (unlines pre).length + (header n).length

/-- The condition under which the OK reply of a call is true. -/
def Truthful (e : Env) (c : Call) (w : World) : Prop :=
  match c.verb with
  | .userAdd => (users, c.name) ∈ w.groups ∨ e.ok (.usermod c.name users) = true
  | .userAdmin =>
    if arg c.args 1 = bytes "on" then
      (smbadmins, c.name) ∈ w.groups ∨ e.ok (.usermod c.name smbadmins) = true
    else (smbadmins, c.name) ∉ w.groups ∨ e.ok (.gpasswd c.name smbadmins) = true
  | .userDel =>
    (c.name ∈ w.passdb → e.ok .pdbedit = true ∧ e.ok (.smbpasswdDel c.name) = true) ∧
    (c.name ∈ w.accounts → e.ok (.id c.name) = true ∧ e.ok (.deluser c.name) = true) ∧
    (hasHeader c.name w.smb = true →
      e.ok (.grepHeader .delBlock c.name) = true ∧ Removes e c.name w.smb)
  | .shareAdd => ∀ typ, c.shareType = some typ → Adds e c.name typ (arg c.args 2) w.smb
  | .shareDel => e.ok (.grepHeader .delBlock c.name) = true ∧ Removes e c.name w.smb
  | _ => True

/-! ## The writers -/

theorem hasHeader_eq (n t : Bytes) : hasHeader n t = true ↔ ∃ l ∈ lines t, header n <+: l := by
  simp [hasHeader]

theorem header_ne_nil (n : Bytes) : header n ≠ [] := by simp [header_eq]

theorem hasHeader_close (n t : Bytes) : hasHeader n (t ++ [nl]) = hasHeader n t := by
  rw [Bool.eq_iff_iff, hasHeader_eq, hasHeader_eq, lines, records_close, lines]
  split
  · have : ¬ header n <+: [] := by simp [header_ne_nil]
    simp [or_and_right, exists_or, this]
  · simp

/-- The first `q` bytes of a new section after a text. -/
theorem hasHeader_take_block {n owner : Bytes} {typ : ShareType} (t : Bytes) (hn : nl ∉ n)
    (ho : typ = .priv → nl ∉ owner) (q : ℕ) :
    hasHeader n (t ++ (shareBlock n typ owner).take q) = true ↔
      hasHeader n t = true ∨ (header n).length + 1 ≤ q := by
  cases q with
  | zero => simp
  | succ q =>
    have hls : ∀ l ∈ header n :: shareLines n typ owner, nl ∉ l := by
      intro l hl
      rcases List.mem_cons.1 hl with rfl | hl
      · exact nl_notMem_header hn
      · exact (shareLines_body hn ho l hl).1
    have hblock : (shareBlock n typ owner).take (q + 1) =
        nl :: (unlines (header n :: shareLines n typ owner)).take q := rfl
    rw [hasHeader_eq, hblock, lines, records_append_sep]
    simp only [List.mem_append, or_and_right, exists_or]
    refine or_congr ?_ ?_
    · rw [← hasHeader_close, hasHeader_eq]
      rfl
    · rw [unlines, exists_records_take_iff (header_ne_nil n) hls]
      constructor
      · rintro ⟨pre, l, post, -, -, hq⟩
        omega
      · intro hq
        exact ⟨[], header n, shareLines n typ owner, rfl, List.prefix_rfl, by simp; omega⟩

/-- smb.conf after `share_add_block`, whatever its copies wrote. -/
theorem hasHeader_addConf (e : Env) {n owner : Bytes} {typ : ShareType} (old : Bytes)
    (hn : nl ∉ n) (ho : typ = .priv → nl ∉ owner) :
    hasHeader n (addConf e n typ owner old) = true ↔ Adds e n typ owner old := by
  have hi := reaches_le e .catConf old.length
  have hj := reaches_le e (.append (old.take (e.reaches .catConf old.length))
    (shareBlock n typ owner)) (shareBlock n typ owner).length
  simp only [addConf, addTmp, Env.copiedBack, written_eq, Adds, List.length_append, List.length_take,
    min_eq_left hi, min_eq_left hj]
  generalize e.reaches (.writeConf _) _ = k
  split
  · rw [List.take_append, List.take_take, List.take_take, List.length_take, min_eq_left hi,
      min_comm k, min_comm (k - _), hasHeader_take_block _ hn ho]
  · exact Iff.rfl

/-- smb.conf after `share_del_block`, whatever its copies wrote. -/
theorem hasHeader_delConf (e : Env) {n old : Bytes} (h : hasHeader n old = true) :
    hasHeader n (delConf e n old) = false ↔ Removes e n old := by
  have hi := reaches_le e (.awkDel n) (awkDel n old).length
  have hk := reaches_le e (.writeConf ((awkDel n old).take
    (e.reaches (.awkDel n) (awkDel n old).length))) (e.reaches (.awkDel n) (awkDel n old).length)
  have hlines : ∀ l ∈ skipFrom isHeader (header n) false (lines old), nl ∉ l := fun l hl =>
    sep_notMem_records old l ((skipFrom_sublist _ _).subset hl)
  by_cases ho : e.opens (.writeConf ((awkDel n old).take
      (e.reaches (.awkDel n) (awkDel n old).length))) = true
  · have hconf : delConf e n old = (unlines (skipFrom isHeader (header n) false (lines old))).take
        (e.reaches (.writeConf ((awkDel n old).take (e.reaches (.awkDel n) (awkDel n old).length)))
          (e.reaches (.awkDel n) (awkDel n old).length)) := by
      rw [delConf, delTmp, written_eq, Env.copiedBack_opens ho]
      simp only [written_eq, List.length_take, min_eq_left hi, List.take_take, min_eq_left hk]
      rfl
    rw [← Bool.not_eq_true, hasHeader_eq, hconf, lines, unlines,
      exists_records_take_iff (header_ne_nil n) hlines]
    simp only [not_exists, not_and, not_le]
    exact (and_iff_right ho).symm
  · rw [delConf, delTmp, written_eq, Env.copiedBack_unopened ho, h]
    exact iff_of_false Bool.noConfusion fun hr => ho hr.1

/-! ## The replies -/

variable {e : Env} {c : Call} {w w' : World} {m : Bytes}

theorem notMem_smbDeleted_iff {u : Bytes} : u ∉ (smbDeleted e u w).passdb ↔
    (u ∈ w.passdb → e.ok .pdbedit = true ∧ e.ok (.smbpasswdDel u) = true) := by
  unfold smbDeleted
  by_cases hu : u ∈ w.passdb <;> by_cases hp : e.ok .pdbedit = true <;>
    by_cases hd : e.ok (.smbpasswdDel u) = true <;> simp [hu, hp, hd]

theorem notMem_accountDeleted_iff {u : Bytes} : u ∉ (accountDeleted e u w).accounts ↔
    (u ∈ w.accounts → e.ok (.id u) = true ∧ e.ok (.deluser u) = true) := by
  unfold accountDeleted
  by_cases hu : u ∈ w.accounts <;> by_cases hi : e.ok (.id u) = true <;>
    by_cases hd : e.ok (.deluser u) = true <;> simp [hu, hi, hd, World.removeUser]

theorem accountDeleted_passdb (e : Env) (u : Bytes) (w : World) :
    (accountDeleted e u w).passdb = w.passdb := by
  simp only [accountDeleted, exec_deluser, World.removeUser]
  split_ifs <;> rfl

/-- smb.conf after an acknowledged `share_del_block`. -/
theorem hasHeader_share_del_block {n : Bytes} {b : Bool}
    (h : (share_del_block n).eval (exec e) w = (.ok b, w')) :
    hasHeader n w'.smb = false ↔ (hasHeader n w.smb = true →
      e.ok (.grepHeader .delBlock n) = true ∧ Removes e n w.smb) := by
  rcases share_del_block_ok.1 h with ⟨-, hg, -, -, rfl⟩ | ⟨-, hg, rfl⟩
  · simp only [Env.greps, Bool.and_eq_true] at hg
    rw [hasHeader_delConf e hg.2]
    exact ⟨fun h _ => ⟨hg.1, h⟩, fun h => (h hg.2).2⟩
  · simp only [Env.greps, Bool.and_eq_false_iff] at hg
    constructor
    · intro h h'
      rw [h] at h'
      cases h'
    · intro h
      by_contra hh
      rw [Bool.not_eq_false] at hh
      rcases hg with hg | hg
      · rw [(h hh).1] at hg; cases hg
      · rw [hh] at hg; cases hg

theorem announced_userAdd (hv : c.verb = .userAdd) (h : c.exec e w = (.ok m, w')) :
    (c.name ∈ w'.accounts ∧ w'.passdb.lookup c.name = some c.password ∧
      (users, c.name) ∈ w'.groups) ↔
        ((users, c.name) ∈ w.groups ∨ e.ok (.usermod c.name users) = true) := by
  have hs := user_add_stores hv h
  have hacc : c.name ∈ w'.accounts := by
    have hj : (joined e c.name w).accounts = (accountWorld c.name w).accounts := by
      simp only [joined, exec_usermod, World.join]
      split_ifs <;> rfl
    rw [stores_accounts hs]
    exact hj ▸ mem_accountWorld _ _
  have hpass : w'.passdb.lookup c.name = some c.password := by
    rw [stores_passdb hs]
    exact AList.lookup_insert _
  have hgr : (users, c.name) ∈ w'.groups ↔
      (users, c.name) ∈ w.groups ∨ e.ok (.usermod c.name users) = true := by
    rw [stores_groups hs]
    exact mem_joined.trans (or_congr_right (and_iff_left rfl))
  exact ⟨fun h => hgr.1 h.2.2, fun h => ⟨hacc, hpass, hgr.2 h⟩⟩

theorem announced_userAdmin (hv : c.verb = .userAdmin) (h : c.exec e w = (.ok m, w')) :
    (if arg c.args 1 = bytes "on" then (smbadmins, c.name) ∈ w'.groups
      else (smbadmins, c.name) ∉ w'.groups) ↔
    (if arg c.args 1 = bytes "on" then
      (smbadmins, c.name) ∈ w.groups ∨ e.ok (.usermod c.name smbadmins) = true
    else (smbadmins, c.name) ∉ w.groups ∨ e.ok (.gpasswd c.name smbadmins) = true) := by
  obtain ⟨v, args, stdin⟩ := c
  subst hv
  obtain ⟨-, -, hu, ⟨hon, rfl⟩ | ⟨hoff, rfl⟩⟩ := user_admin_ok h
  · rw [if_pos hon, if_pos hon, exec_usermod]
    by_cases hk : e.ok (.usermod (arg args 0) smbadmins) = true
    · rw [if_pos ⟨hk, hu⟩, mem_join]
      simp [hk]
    · rw [if_neg fun h => hk h.1]
      simp [hk]
  · have hne : arg args 1 ≠ bytes "on" := fun hon => by
      rw [hoff] at hon
      exact absurd hon (by decide)
    rw [if_neg hne, if_neg hne, exec_gpasswd]
    by_cases hk : e.ok (.gpasswd (arg args 0) smbadmins) = true
    · rw [if_pos hk]
      simp [hk, World.leave]
    · rw [if_neg hk]
      simp [hk]

theorem announced_userDel (hv : c.verb = .userDel) (h : c.exec e w = (.ok m, w')) :
    (c.name ∉ w'.passdb ∧ c.name ∉ w'.accounts ∧ hasHeader c.name w'.smb = false) ↔
      ((c.name ∈ w.passdb → e.ok .pdbedit = true ∧ e.ok (.smbpasswdDel c.name) = true) ∧
        (c.name ∈ w.accounts → e.ok (.id c.name) = true ∧ e.ok (.deluser c.name) = true) ∧
        (hasHeader c.name w.smb = true →
          e.ok (.grepHeader .delBlock c.name) = true ∧ Removes e c.name w.smb)) := by
  obtain ⟨v, args, stdin⟩ := c
  subst hv
  obtain ⟨-, -, b, w₁, hb, rfl⟩ := user_del_ok h
  have hst : w₁.stores = (smbDeleted e (arg args 0) w).stores := by
    rcases share_del_block_ok.1 hb with ⟨-, -, -, -, rfl⟩ | ⟨-, -, rfl⟩ <;> rfl
  have hacc : w₁.accounts = w.accounts := by
    rw [stores_accounts hst]
    unfold smbDeleted
    split
    · rw [exec_smbpasswdDel]; split <;> rfl
    · rfl
  have hconf := hasHeader_share_del_block hb
  rw [smbDeleted_smb] at hconf
  rw [accountDeleted_passdb, accountDeleted_smb, stores_passdb hst, notMem_smbDeleted_iff,
    notMem_accountDeleted_iff, hacc, hconf]

/-- **What an OK reply announces holds exactly when** the commands it does not check have worked. -/
theorem announced_iff (hw : c.verb.writes = true) (h : c.exec e w = (.ok m, w')) :
    Announced c w' ↔ Truthful e c w := by
  cases hv : c.verb with
  | userAdd => simpa only [Announced, Truthful, hv] using announced_userAdd hv h
  | userAdmin => simpa only [Announced, Truthful, hv] using announced_userAdmin hv h
  | userDel => simpa only [Announced, Truthful, hv] using announced_userDel hv h
  | userPass =>
    simp only [Announced, Truthful, hv, iff_true]
    obtain ⟨v, args, stdin⟩ := c
    subst hv
    obtain ⟨-, -, rfl⟩ := user_pass_ok h
    exact AList.lookup_insert _
  | shareAdd =>
    simp only [Announced, Truthful, hv]
    obtain ⟨v, args, stdin⟩ := c
    subst hv
    obtain ⟨hn, -, typ, o, mode, ht, ho, rfl, -⟩ := share_add_ok h
    have hadd := hasHeader_addConf e w.smb (nameRe_nl hn) fun hp : typ = .priv => nameRe_nl (ho hp).1
    refine Iff.trans hadd ⟨fun h typ' ht' => ?_, fun h => h typ ht⟩
    obtain rfl : typ = typ' := Option.some.inj (ht.symm.trans ht')
    exact h
  | shareDel =>
    simp only [Announced, Truthful, hv]
    obtain ⟨v, args, stdin⟩ := c
    subst hv
    obtain ⟨-, -, hg, b, hb⟩ := share_del_ok h
    simp only [Env.greps, Bool.and_eq_true] at hg
    exact (hasHeader_share_del_block hb).trans ⟨fun h => h hg.2, fun h _ => h⟩
  | _ => rw [hv] at hw; cases hw

/-- `gpasswd` fails, everything else succeeds. -/
def noGpasswd : Env where
  outcome c := match c with
    | .gpasswd _ _ => .fail 0
    | _ => .ok
  probe _ := none

/-- `user-admin bob off`, with every command working. -/
theorem announced_bob :
    let w := runCalls (stage3World ∅) [(allOk, ⟨.userAdd, [bytes "bob"], []⟩),
      (allOk, ⟨.userAdmin, ["bob", "on"].map bytes, []⟩)]
    let c : Call := ⟨.userAdmin, ["bob", "off"].map bytes, []⟩
    Announced c (c.exec allOk w).2 :=
  (announced_iff rfl (m := bytes "OK: bob is no longer an admin")
    (Prod.ext (by decide +kernel) rfl)).2 (.inr rfl)

/-- `user-admin bob off` replies OK and leaves `bob` an admin. -/
theorem admin_not_revoked :
    let w := runCalls (stage3World ∅) [(allOk, ⟨.userAdd, [bytes "bob"], []⟩),
      (allOk, ⟨.userAdmin, ["bob", "on"].map bytes, []⟩)]
    let c : Call := ⟨.userAdmin, ["bob", "off"].map bytes, []⟩
    (c.exec noGpasswd w).1 = .ok (bytes "OK: bob is no longer an admin") ∧
      (smbadmins, bytes "bob") ∈ (c.exec noGpasswd w).2.groups := by
  decide +kernel

end Panel
