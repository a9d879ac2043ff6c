import Mathlib.Order.Bounds.Defs
import MyCloud.Panel.Samba
import MyCloud.Panel.Proof.Change
import MyCloud.Panel.Proof.Temporary
import MyCloud.Tools.Proof.MakeShares

/-!
# `make-shares.sh` and `user-add`

The two ways to provision a user, compared store by store.

* `settings_hereDoc`, `param_shareLines`: a new section has the same parameters from both, in whatever
  order they are written.
* `lookup_addAccounts`, `newUid_addAccounts`: the uid that `make-shares.sh` gives depends on the
  accounts it adds before.
* `user_add_eval`: what `user-add` leaves behind when its commands succeed.
* `provision_iff`: where the two agree, and exactly when in the stores where one of them has a guard
  that the other lacks.
-/

set_option autoImplicit false

namespace Tools

open Shell Script Panel

/-! ## Sections and their parameters -/

/-- The sections named `n`, each as the values of its parameters. -/
def settings (n t : Bytes) : List (Bytes → Option Bytes) :=
  ((sambaSections t).filter fun s => sectionName s.1 = some n).map fun s key => param key s.2

/-- Where a line with the key `key` begins, and how it goes on. -/
theorem stripKey_start {key l v : Bytes} (h : stripKey key l = some v) :
    key <+: l.dropWhile isBlank ∧
      (((l.dropWhile isBlank).drop key.length).dropWhile isBlank).head? = some '='.toUInt8 := by
  unfold stripKey at h
  simp only at h
  split at h
  · rename_i hk
    refine ⟨hk, ?_⟩
    split at h
    · rename_i c r hr
      rw [hr]
      split at h
      · rename_i hc
        rw [hc]
        rfl
      · cases h
    · cases h
  · cases h

/-- The first three characters of the lines of a new section, after the blanks. -/
theorem typeLines_start (u : Bytes) : ∀ l ∈ typeLines u .priv u,
    (l.dropWhile isBlank).take 3 ∉ [bytes "vfs", bytes "rec"] := by
  intro l hl
  simp only [typeLines, List.mem_cons, List.not_mem_nil, or_false] at hl
  rcases hl with rfl | rfl | rfl | rfl | rfl | rfl | rfl | rfl | rfl
  · exact (by decide : bytes "com" ∉ [bytes "vfs", bytes "rec"])
  · exact (by decide : bytes "pat" ∉ [bytes "vfs", bytes "rec"])
  iterate 3 decide
  · exact (by decide : bytes "val" ∉ [bytes "vfs", bytes "rec"])
  all_goals decide

theorem recycleLines_start : ∀ l ∈ recycleLines,
    (l.dropWhile isBlank).take 3 ∈ [bytes "vfs", bytes "rec"] ∧
      ∀ k < 3, (((l.dropWhile isBlank).drop k).dropWhile isBlank).head? ≠ some '='.toUInt8 := by
  decide +kernel

/-- No key is one of the recycle bin and one of the share. -/
theorem stripKey_recycle {u key l l' v : Bytes} (hl : l ∈ recycleLines)
    (hl' : l' ∈ typeLines u .priv u) (h : stripKey key l = some v) : stripKey key l' = none := by
  by_contra hne
  obtain ⟨v', h'⟩ := Option.ne_none_iff_exists'.1 hne
  obtain ⟨hp, hh⟩ := stripKey_start h
  obtain ⟨hp', -⟩ := stripKey_start h'
  obtain ⟨h3, hk⟩ := recycleLines_start l hl
  have hlen : 3 ≤ key.length := by
    by_contra hlt
    exact hk key.length (by omega) hh
  have htake : ∀ {d : Bytes}, key <+: d → d.take 3 = key.take 3 := by
    rintro d ⟨t, rfl⟩
    exact List.take_append_of_le_length hlen
  apply typeLines_start u l' hl'
  rw [htake hp', ← htake hp]
  exact h3

/-- **The order of the lines does not matter**: a key has its lines in one of the two parts. -/
theorem param_privateLines (u key : Bytes) :
    param key (privateLines u) = param key (shareLines u .priv u) := by
  rw [privateLines_eq, shareLines, param, param, List.filterMap_append, List.filterMap_append]
  by_cases hr : ∀ l ∈ recycleLines, stripKey key l = none
  · rw [List.filterMap_eq_nil_iff.2 hr]
    simp
  · push Not at hr
    obtain ⟨l, hl, hne⟩ := hr
    obtain ⟨v, hv⟩ := Option.ne_none_iff_exists'.1 hne
    have ht : (typeLines u .priv u).filterMap (stripKey key) = [] :=
      List.filterMap_eq_nil_iff.2 fun l' hl' => stripKey_recycle hl hl' hv
    rw [ht]
    simp

theorem param_snoc_nil (key : Bytes) (ls : List Line) : param key (ls ++ [[]]) = param key ls := by
  have h : stripKey key [] = none := by
    unfold stripKey
    cases key <;> simp
  simp [param, h]

/-- Closing the last line, or a blank line after it, changes no parameter. -/
theorem settings_close (n t : Bytes) : settings n (t ++ [nl]) = settings n t := by
  have ho : opensSection [] = false := rfl
  unfold settings sambaSections lines
  rw [records_close]
  split
  · rw [segments_snoc_item _ ho]
    cases h : (Shell.segments opensSection (records nl t)).2.getLast? with
    | none => rw [List.getLast?_eq_none_iff] at h; simp [h]
    | some s =>
      obtain ⟨ss, hs⟩ := List.getLast?_eq_some_iff.1 h
      simp only [hs, List.dropLast_concat, List.filter_append, List.map_append]
      congr 1
      by_cases hn : sectionName s.1 = some n <;> simp [hn, param_snoc_nil]
  · simp

/-- A section that the script writes, for Samba. -/
theorem settings_hereDoc {n : Bytes} {ls : List Line} (h : Writes n ls)
    (ho : ∀ l ∈ ls, opensSection l = false) (m t : Bytes) : settings m (t ++ hereDoc n ls) =
      settings m t ++ if n = m then [fun key => param key ls] else [] := by
  obtain ⟨hh, hname⟩ := sectionName_of_prefix (validUser_close h.name) List.prefix_rfl
  rw [← settings_close m t]
  unfold settings sambaSections
  rw [lines_hereDoc h, segments_append _ hh, segments_header hh, segments_of_no_header ho]
  rw [List.filter_append, List.map_append]
  by_cases hn : n = m
  · subst hn
    simp [hname]
  · simp [hname, hn]

/-- The sections of the script, with no line that Samba takes for a header. -/
structure Plainly (n : Bytes) (ls : List Line) : Prop extends Writes n ls where
  items : ∀ l ∈ ls, opensSection l = false

theorem recycleLines_items : ∀ l ∈ recycleLines, opensSection l = false := by decide

theorem typeLines_items (u : Bytes) : ∀ l ∈ typeLines u .priv u, opensSection l = false := by
  intro l hl
  simp only [typeLines, List.mem_cons, List.not_mem_nil, or_false] at hl
  rcases hl with rfl | rfl | rfl | rfl | rfl | rfl | rfl | rfl | rfl <;> rfl

theorem plainly_private {u : Bytes} (hu : validUser u = true) : Plainly u (privateLines u) where
  toWrites := writes_private hu
  items l hl := by
    rw [privateLines_eq] at hl
    rcases List.mem_append.1 hl with hl | hl
    · exact recycleLines_items l hl
    · exact typeLines_items u l hl

theorem plainly_admin : Plainly admin adminLines := ⟨writes_admin, by decide⟩

theorem plainly_music : Plainly music musicLines := ⟨writes_music, by decide⟩

/-- A section of another name. -/
theorem addShare_other {n m : Bytes} {ls : List Line} (h : Plainly n ls)
    (hm : validUser m = true) (hne : m ≠ n) (t : Bytes) :
    settings m (addShare n ls t) = settings m t ∧
      hasHeader m (addShare n ls t) = hasHeader m t := by
  unfold addShare
  split
  · exact ⟨rfl, rfl⟩
  · rw [settings_hereDoc h.toWrites h.items, hasHeader_hereDoc h.toWrites t hm]
    simp [hne, Ne.symm hne]

/-- The section of the name itself: it is added unless there is one. -/
theorem addShare_self {n : Bytes} {ls : List Line} (h : Plainly n ls) (t : Bytes) :
    settings n (addShare n ls t) = settings n t ++
        (if hasHeader n t then [] else [fun key => param key ls]) ∧
      hasHeader n (addShare n ls t) = true := by
  unfold addShare
  split
  · rename_i hh
    exact ⟨by simp, hh⟩
  · rw [settings_hereDoc h.toWrites h.items, hasHeader_hereDoc h.toWrites t h.name]
    simp

section
variable {FAMILY : List Bytes} (hF : ∀ v ∈ FAMILY, validUser v = true) {u : Bytes}
include hF

/-- The loop adds the section of `u` once, if it is not there. -/
theorem settings_addShares (hu : validUser u = true) (t : Bytes) :
    let t' := FAMILY.foldl (fun t v => addShare v (privateLines v) t) t
    settings u t' = settings u t ++
        (if hasHeader u t ∨ u ∉ FAMILY then [] else [fun key => param key (privateLines u)]) ∧
      hasHeader u t' = (hasHeader u t || u ∈ FAMILY) := by
  induction FAMILY generalizing t with
  | nil => simp
  | cons v vs ih =>
    obtain ⟨h1, h2⟩ := ih (fun x hx => hF x (List.mem_cons_of_mem _ hx))
      (addShare v (privateLines v) t)
    have hv := plainly_private (hF v List.mem_cons_self)
    simp only [List.foldl_cons, h1, h2]
    by_cases huv : u = v
    · subst huv
      obtain ⟨h3, h4⟩ := addShare_self hv t
      simp [h3, h4]
    · obtain ⟨h3, h4⟩ := addShare_other hv hu huv t
      simp [h3, h4, huv]

/-- **The sections named `u` after a run.** -/
theorem settings_made (hm : u ∈ FAMILY) (T : Bytes) (w : World) :
    settings u (made FAMILY T w).smb = settings u w.smb ++
      if hasHeader u w.smb then [] else [fun key => param key (privateLines u)] := by
  have hu := hF u hm
  obtain ⟨h1, h2⟩ := settings_addShares hF hu w.smb
  have hfixed : ∀ {n ls t}, Plainly n ls → hasHeader u t = true →
      settings u (addShare n ls t) = settings u t ∧ hasHeader u (addShare n ls t) = true := by
    intro n ls t hn ht
    by_cases hun : u = n
    · subst hun
      simp [addShare, ht]
    · obtain ⟨h3, h4⟩ := addShare_other hn hu hun t
      exact ⟨h3, h4.trans ht⟩
  have ht := h2.trans (by simp [hm] : _ = true)
  obtain ⟨h3, h4⟩ := hfixed plainly_admin ht
  rw [made_smb, (hfixed plainly_music h4).1, h3, h1]
  simp [hm]

end

/-! ## The uids of the new accounts -/

/-- `k` can be the uid of a new account: it is in the range of `adduser`, which begins at 1000, no
account has it, and it is none of `gids`. -/
def FreeUid (gids : List ℕ) (a : AList fun _ : Bytes => ℕ) (k : ℕ) : Prop :=
  1000 ≤ k ∧ k ∉ gids ∧ ∀ u, a.lookup u ≠ some k

/-- The rule that `adduser` documents: a new account takes the first free uid. `gids` are the ids of
groups that it passes over, to give the group of the user the same id. (When its range is used up it
fails: then there is no new account.) -/
def FirstFree (gids : List ℕ) (newUid : (AList fun _ : Bytes => ℕ) → ℕ) : Prop :=
  ∀ a, IsLeast {k | FreeUid gids a k} (newUid a)

theorem firstFree_firstUid : FirstFree [] firstUid := by
  intro a
  have hfree : ∀ k, FreeUid [] a k ↔ 1000 ≤ k ∧ k ∉ a.entries.map (·.2) := by
    intro k
    have hk : (∀ u, a.lookup u ≠ some k) ↔ k ∉ a.entries.map (·.2) := by
      simp only [List.mem_map, not_exists, not_and, Sigma.forall, ← AList.mem_lookup_iff,
        Option.mem_def]
      exact ⟨fun h u x hx hxk => h u (hxk ▸ hx), fun h u hu => h u k hu rfl⟩
    simp only [FreeUid, hk, List.not_mem_nil, not_false_eq_true, true_and]
  -- one of `length + 1` numbers is no uid
  obtain ⟨k, hk⟩ : ∃ k, (List.range' 1000 (a.entries.length + 1)).find?
      (· ∉ a.entries.map (·.2)) = some k := by
    rw [← Option.isSome_iff_exists, List.find?_isSome]
    by_contra h
    have hsub : List.range' 1000 (a.entries.length + 1) ⊆ a.entries.map (·.2) := by
      intro k hk
      by_contra hn
      exact h ⟨k, hk, by simpa using hn⟩
    have hlen := (List.subperm_of_subset List.nodup_range' hsub).length_le
    rw [List.length_range', List.length_map] at hlen
    omega
  rw [firstUid, hk, Option.getD_some]
  obtain ⟨hp, hm, hlt⟩ := List.find?_range'_eq_some.1 hk
  refine ⟨(hfree k).2 ⟨(List.mem_range'_1.1 hm).1, by simpa using hp⟩, fun j hj => ?_⟩
  by_contra hjk
  obtain ⟨hj, hn⟩ := (hfree j).1 hj
  have := hlt j hj (not_le.1 hjk)
  simp [hn] at this

section
variable {gids : List ℕ} {newUid : (AList fun _ : Bytes => ℕ) → ℕ}
  {a : AList fun _ : Bytes => ℕ} {u v : Bytes}

theorem addAccount_of_mem (hv : v ∈ a) : addAccount newUid v a = a := if_pos hv

theorem mem_addAccount : u ∈ addAccount newUid v a ↔ u = v ∨ u ∈ a := by
  unfold addAccount
  split
  · rename_i hv
    exact ⟨.inr, fun h => h.elim (fun h => h ▸ hv) id⟩
  · exact AList.mem_insert _

theorem freeUid_addAccount (hv : v ∉ a) {k : ℕ} :
    FreeUid gids (addAccount newUid v a) k ↔ FreeUid gids a k ∧ k ≠ newUid a := by
  simp only [FreeUid, and_assoc]
  refine and_congr_right' (and_congr_right' ?_)
  rw [addAccount, if_neg hv]
  constructor
  · refine fun h => ⟨fun u => ?_, fun hk => h v (by rw [AList.lookup_insert, hk])⟩
    by_cases hu : u = v
    · rw [hu, AList.lookup_eq_none.2 hv]
      exact nofun
    · have hl := h u
      rwa [AList.lookup_insert_ne hu] at hl
  · rintro ⟨h, hk⟩ u
    by_cases hu : u = v
    · rw [hu, AList.lookup_insert]
      exact fun h => hk (Option.some.inj h).symm
    · rw [AList.lookup_insert_ne hu]
      exact h u

variable (hf : FirstFree gids newUid)
include hf

/-- A new account uses its uid up. -/
theorem newUid_addAccount (hv : v ∉ a) : newUid a < newUid (addAccount newUid v a) := by
  obtain ⟨hfree, hne⟩ := (freeUid_addAccount hv).1 (hf (addAccount newUid v a)).1
  exact lt_of_le_of_ne ((hf a).2 hfree) (Ne.symm hne)

theorem newUid_addAccounts_le (vs : List Bytes) (a : AList fun _ : Bytes => ℕ) :
    newUid a ≤ newUid (vs.foldl (fun a v => addAccount newUid v a) a) := by
  induction vs generalizing a with
  | nil => exact le_rfl
  | cons v vs ih =>
    refine le_trans ?_ (ih _)
    show newUid a ≤ newUid (addAccount newUid v a)
    by_cases hv : v ∈ a
    · rw [addAccount_of_mem hv]
    · exact (newUid_addAccount hf hv).le

/-- **The next uid stays the same** just when there was nothing to add. -/
theorem newUid_addAccounts (vs : List Bytes) (a : AList fun _ : Bytes => ℕ) :
    newUid (vs.foldl (fun a v => addAccount newUid v a) a) = newUid a ↔ ∀ v ∈ vs, v ∈ a := by
  induction vs generalizing a with
  | nil => simp
  | cons v vs ih =>
    rw [List.foldl_cons, List.forall_mem_cons]
    by_cases hv : v ∈ a
    · rw [addAccount_of_mem hv, ih a]
      simp [hv]
    · have hlt := newUid_addAccount hf hv
      have hle := newUid_addAccounts_le hf vs (addAccount newUid v a)
      exact iff_of_false (by omega) fun h => hv h.1

end

/-- **The uid of `u`** is the next one after the accounts of the names before it. -/
theorem lookup_addAccounts (newUid : (AList fun _ : Bytes => ℕ) → ℕ) {u : Bytes} {vs : List Bytes}
    (hu : u ∈ vs) (a : AList fun _ : Bytes => ℕ) :
    (vs.foldl (fun a v => addAccount newUid v a) a).lookup u = if u ∈ a then a.lookup u
      else some (newUid
        ((vs.takeWhile (· ≠ u)).foldl (fun a v => addAccount newUid v a) a)) := by
  have hkeep : ∀ (vs : List Bytes) (a : AList fun _ : Bytes => ℕ), u ∈ a →
      (vs.foldl (fun a v => addAccount newUid v a) a).lookup u = a.lookup u := by
    intro vs
    induction vs with
    | nil => exact fun _ _ => rfl
    | cons v vs ih =>
      intro a ha
      obtain ⟨x, hx⟩ := Option.isSome_iff_exists.1 (AList.lookup_isSome.2 ha)
      rw [List.foldl_cons, ih _ (mem_addAccount.2 (.inr ha)), addAccount, lookup_insert_unless, hx,
        Option.some_or]
  by_cases ha : u ∈ a
  · rw [if_pos ha, hkeep vs a ha]
  · rw [if_neg ha]
    induction vs generalizing a with
    | nil => cases hu
    | cons v vs ih =>
      by_cases hv : v = u
      · subst hv
        rw [List.foldl_cons, hkeep _ _ (mem_addAccount.2 (.inl rfl)), addAccount, if_neg ha,
          AList.lookup_insert]
        simp
      · have hu' : u ∈ vs := (List.mem_cons.1 hu).resolve_left (Ne.symm hv)
        have ha' : u ∉ addAccount newUid v a := fun h => (mem_addAccount.1 h).elim (Ne.symm hv) ha
        rw [List.foldl_cons, ih hu' _ ha', List.takeWhile_cons, if_pos (decide_eq_true hv),
          List.foldl_cons]

/-! ## `user-add` -/

/-- What `user-add u share` leaves behind. -/
def userAdded (u pass : Bytes) (w : World) : World :=
  let w := ((accountWorld u w).join u users).setPassword u (some pass)
  if hasHeader u w.smb then w
  else { owned u (bytes "2770") u (w.makeDir u) with smb := w.smb ++ shareBlock u .priv u }

section
variable {e : Env} (he : Succeeds e) {u stdin : Bytes}
include he

theorem shareDir_owned {w : World} (hu : u ∈ w.accounts) :
    shareDir e u (bytes "2770") u w = owned u (bytes "2770") u (w.makeDir u) := by
  simp only [shareDir, exec, he.ok, if_true, true_and, makeDir_accounts, if_pos hu]
  rfl

theorem user_add_share_ok {w : World} (hu : u ∈ w.accounts) :
    (user_add_share u (bytes "share")).eval (exec e) w = (.ok (),
      if hasHeader u w.smb then w
      else { owned u (bytes "2770") u (w.makeDir u) with smb := w.smb ++ shareBlock u .priv u }) := by
  rw [user_add_share_eval, he.greps]
  cases hh : hasHeader u w.smb with
  | true => simp
  | false =>
    rw [if_pos ⟨rfl, rfl⟩, share_add_block_eval, if_pos (he.ok _), if_pos (he.ok _),
      he.copies.addConf, shareDir_owned he hu]
    simp

/-- **`user-add` succeeds when its commands do.** -/
theorem user_add_eval (hn : nameRe u = true) (hp : u ∉ PROTECTED_USERS)
    (hlen : 4 ≤ (readPass stdin).length) (w : World) :
    ∃ m, (user_add [u, bytes "share"] stdin).eval (exec e) w =
      (.ok m, userAdded u (readPass stdin) w) := by
  have hne : readPass stdin ≠ [] := by
    intro h
    rw [h] at hlen
    simp at hlen
  have hc : Checked [u, bytes "share"] stdin := ⟨hn, fun h => by omega, hp⟩
  have hready : (e.ok (.id u) = true ∧ u ∈ w.accounts) ∨
      (e.ok (.adduser u) = true ∧ u ∉ w.accounts) :=
    (em (u ∈ w.accounts)).imp (fun h => ⟨he.ok _, h⟩) fun h => ⟨he.ok _, h⟩
  have hacc : u ∈ (((accountWorld u w).join u users).setPassword u
      (some (readPass stdin))).accounts := by
    simpa [World.setPassword] using mem_accountWorld u w
  refine ⟨bytes "OK: user " ++ u ++ bytes " created", ?_⟩
  rw [user_add_eq hc]
  refine eval_bind_ok.2 ⟨(), accountWorld u w, ?_, ?_⟩
  · show (user_add_account u).eval (exec e) w = _
    rw [user_add_account_eval, if_pos hready]
  · show (Script.call (.usermod u users) _).eval (exec e) (accountWorld u w) = _
    rw [eval_call, exec_usermod, if_pos ⟨he.ok _, mem_accountWorld u w⟩]
    refine eval_bind_ok.2 ⟨(), ((accountWorld u w).join u users).setPassword u
      (some (readPass stdin)), ?_, ?_⟩
    · show (user_add_password u (readPass stdin)).eval (exec e) _ = _
      rw [user_add_password_eval (nl_notMem_readPass stdin), if_pos hne, if_pos (he.ok _),
        passwordWorld, if_pos hne]
    · unfold user_add_rest
      refine eval_bind_ok.2 ⟨(), _, user_add_share_ok he hacc, ?_⟩
      rw [if_pos hne]
      rfl

end

/-! ## The stores after `user-add` -/

section
variable (w : World) (u p : Bytes)

theorem userAdded_accounts :
    (userAdded u p w).accounts = addAccount w.newUid u w.accounts := by
  simp only [userAdded, apply_ite World.accounts]
  simp [World.setPassword, accountWorld_accounts]

theorem mem_userAdded_groups {q : Bytes × Bytes} :
    q ∈ (userAdded u p w).groups ↔ q ∈ w.groups ∨ q = (users, u) := by
  simp only [userAdded, apply_ite World.groups]
  simp [World.setPassword, mem_join]

theorem lookup_userAdded_passdb : (userAdded u p w).passdb.lookup u = some (some p) := by
  simp only [userAdded, apply_ite World.passdb]
  simp [World.setPassword]

/-- What comes before the share leaves smb.conf and the directories alone. -/
theorem account_frame : (((accountWorld u w).join u users).setPassword u (some p)).smb = w.smb ∧
    (((accountWorld u w).join u users).setPassword u (some p)).dirs = w.dirs := by
  simp [World.setPassword]

theorem lookup_userAdded_dirs : (userAdded u p w).dirs.lookup u =
    if hasHeader u w.smb then w.dirs.lookup u else some ⟨u, users, bytes "2770"⟩ := by
  obtain ⟨hsmb, hdirs⟩ := account_frame w u p
  simp only [userAdded, hsmb]
  split
  · rw [hdirs]
  · rw [lookup_owned _ (by simp [lookup_makeDir]), if_pos rfl]

theorem settings_userAdded (hu : validUser u = true) : settings u (userAdded u p w).smb =
    settings u w.smb ++
      if hasHeader u w.smb then [] else [fun key => param key (shareLines u .priv u)] := by
  obtain ⟨hsmb, -⟩ := account_frame w u p
  have hw : Plainly u (shareLines u .priv u) := by
    refine ⟨⟨hu, shareLines_body (validUser_nl hu) fun _ => validUser_nl hu⟩, fun l hl => ?_⟩
    rcases List.mem_append.1 hl with hl | hl
    · exact typeLines_items u l hl
    · exact recycleLines_items l hl
  simp only [userAdded, hsmb]
  split
  · rw [hsmb, List.append_nil]
  · show settings u (w.smb ++ hereDoc u (shareLines u .priv u)) = _
    rw [settings_hereDoc hw.toWrites hw.items, if_pos rfl]

end

/-! ## The two compared -/

/-- `echo` prints a text that is no option. -/
theorem tempInput_eq {p : Bytes} (h : isEchoOption p = false) : tempInput p = twice p := by
  simp [tempInput, echo, h, twice, unlines]

/-- The directory of a user after `make-shares.sh`. -/
def madeDir (u : Bytes) : Dir :=
  if u = music then ⟨alpha, users, bytes "2775"⟩
  else if u = admin then ⟨alpha, users, bytes "2770"⟩
  else ⟨u, users, bytes "2770"⟩

def ownerMode (d : Dir) : Bytes × Bytes := (d.owner, d.mode)

theorem ownerMode_madeDir (u : Bytes) :
    some (ownerMode (madeDir u)) = (some ⟨u, users, bytes "2770"⟩ : Option Dir).map ownerMode ↔
      u ≠ admin ∧ u ≠ music := by
  by_cases hm : u = music
  · simp [madeDir, ownerMode, hm, show alpha ≠ music by decide]
  · by_cases ha : u = admin
    · simp [madeDir, ownerMode, ha, show admin ≠ music by decide, show alpha ≠ admin by decide]
    · simp [madeDir, ownerMode, hm, ha]

/-- **`make-shares.sh` and `user-add` agree** on the groups and the parameters of a user, and on the
uid, the SMB password and the directory just when the guard that only one of them has makes no
difference; `adduser` takes the first free uid. -/
theorem provision_iff {e : MakeEnv} (he : MakeSucceeds e) {e' : Env} (he' : Succeeds e')
    {FAMILY : List Bytes} (hF : ∀ v ∈ FAMILY, validUser v = true) {u : Bytes}
    (hn : nameRe u = true) (hu : u ∉ PROTECTED_USERS) (hm : u ∈ FAMILY) {stdin : Bytes}
    (hp : 4 ≤ (readPass stdin).length) {w w₁ : World} {gids : List ℕ} (hf : FirstFree gids w.newUid)
    (h₁ : (make_shares FAMILY (readPass stdin)).eval (MakeCmd.exec e) w = (.ok (), w₁)) :
    let c : Call := ⟨.userAdd, [u, bytes "share"], stdin⟩
    let w₂ := (c.exec e' w).2
    (∀ g, (g, u) ∈ w₁.groups ↔ (g, u) ∈ w₂.groups) ∧
    settings u w₁.smb = settings u w₂.smb ∧
    (w₁.accounts.lookup u = w₂.accounts.lookup u ↔
      u ∈ w.accounts ∨ ∀ v ∈ FAMILY.takeWhile (· ≠ u), v ∈ w.accounts) ∧
    (isEchoOption (readPass stdin) = false →
      (w₁.passdb.lookup u = w₂.passdb.lookup u ↔
        u ∉ w.passdb ∨ w.passdb.lookup u = some (some (readPass stdin)))) ∧
    ((w₁.dirs.lookup u).map ownerMode = (w₂.dirs.lookup u).map ownerMode ↔
      if hasHeader u w.smb then
        (w.dirs.lookup u).map ownerMode = some (ownerMode (madeDir u))
      else u ≠ admin ∧ u ≠ music) := by
  intro c w₂
  have hw₂ : w₂ = userAdded u (readPass stdin) w := by
    obtain ⟨m, h⟩ := user_add_eval he' hn hu hp w
    exact congrArg Prod.snd h
  have hv := hF u hm
  rw [make_shares_ok he h₁, hw₂]
  refine ⟨fun g => ?_, ?_, ?_, fun hecho => ?_, ?_⟩
  · rw [mem_made_groups, mem_userAdded_groups]
    refine or_congr_right ⟨?_, fun h => ⟨u, List.mem_cons_of_mem _ hm, h⟩⟩
    rintro ⟨v, -, h⟩
    rw [h, (Prod.mk.inj h).2]
  · rw [settings_made hF hm, settings_userAdded w u _ hv]
    simp only [param_privateLines]
  · rw [made_accounts, userAdded_accounts, lookup_addAccounts _ hm, addAccount]
    by_cases ha : u ∈ w.accounts
    · simp [ha]
    · rw [if_neg ha, if_neg ha, AList.lookup_insert, Option.some.injEq, newUid_addAccounts hf]
      simp [ha]
  · rw [lookup_made_passdb, lookup_userAdded_passdb, tempInput_eq hecho,
      newPassword_twice (nl_notMem_readPass stdin), if_pos hm, ← AList.lookup_eq_none]
    cases w.passdb.lookup u <;> simp
  · have hmade : (made FAMILY (readPass stdin) w).dirs.lookup u = some (madeDir u) := by
      rw [lookup_made_dirs, madeDir, if_pos hm]
      split_ifs <;> rfl
    rw [hmade, lookup_userAdded_dirs, Option.map_some]
    split
    · exact eq_comm
    · exact ownerMode_madeDir u

/-! ## New and old users -/

def bob : Bytes := bytes "bob"

/-- A new user, on the box as stage 3 leaves it. -/
theorem provision_new_bob :
    let w₁ := ((make_shares [bob] (bytes "starter1")).eval (MakeCmd.exec ⟨fun _ => .ok⟩)
      (stage3World ∅)).2
    let w₂ := ((⟨.userAdd, [bob, bytes "share"], bytes "starter1\n"⟩ : Call).exec allOk
      (stage3World ∅)).2
    settings bob w₁.smb = settings bob w₂.smb ∧
      w₁.accounts.lookup bob = w₂.accounts.lookup bob := by
  intro w₁ w₂
  have hpass : readPass (bytes "starter1\n") = bytes "starter1" := by decide
  have hrun : (make_shares [bob] (readPass (bytes "starter1\n"))).eval
      (MakeCmd.exec ⟨fun _ => .ok⟩) (stage3World ∅) = (.ok (), w₁) := by
    rw [hpass]
    exact eq_of_answer (by decide +kernel)
  have h := provision_iff (u := bob) (fun _ => rfl) succeeds_allOk (by decide) (by decide) (by decide)
    (by decide) (by decide) firstFree_firstUid hrun
  exact ⟨h.2.1, h.2.2.1.2 (by decide)⟩

/-- **A user with an SMB account**: `make-shares.sh` keeps its password, `user-add` replaces it. -/
theorem provision_old_bob :
    let w := (stage3World ∅).setPassword bob (some (bytes "oldpass"))
    let run := (make_shares [bob] (bytes "starter1")).eval (MakeCmd.exec ⟨fun _ => .ok⟩) w
    let w₂ := ((⟨.userAdd, [bob, bytes "share"], bytes "starter1\n"⟩ : Call).exec allOk w).2
    run.1 = .ok () ∧ run.2.passdb.lookup bob = some (some (bytes "oldpass")) ∧
      w₂.passdb.lookup bob = some (some (bytes "starter1")) := by
  decide +kernel

end Tools
