import MyCloud.Panel.Proof.Known
import MyCloud.Panel.Proof.Listing
import MyCloud.Panel.Proof.Stores

/-!
# The access matrix

What `share-list` and `user-list` show, and what Samba grants, over every run from the box as
built. The four stores are tied together by two invariants: the sections of smb.conf are those of
stage 3 or written by `share_add_block` (`KnownConf`), and every SMB account but `alpha` is in
`users` while `alpha` is in `smbadmins` only (`Members`).

* `Shaped`: what the panel shows of a section and whom Samba admits to it.
* `access_matrix`: the panel's description of a share holds for `u` exactly when it is not `alpha`
  and a share for all users.
-/

set_option autoImplicit false

namespace Panel

open Shell

/-! ## Sections -/

/-- Whom a share of each type admits. -/
def ShareType.Admits (typ : ShareType) (owner : Bytes) (w : World) (u : Bytes) : Prop :=
  match typ with
  | .guest => True
  | .family => (users, u) ∈ w.groups
  | .priv => u = owner ∨ (smbadmins, u) ∈ w.groups

/-- The section is listed as the share `n` of type `typ` and admits as that type does. -/
structure Shaped (s : Line × List Line) (n : Bytes) (typ : ShareType) (o : Bytes) : Prop where
  header : s.1 = header n
  name : nameRe n = true
  owner : typ = .priv → nameRe o = true
  row : sectionRow s = [n ++ tab :: typ.description o]
  admitted : ∀ w u, u.head? ≠ some '@'.toUInt8 → (admitted w u s.2 = true ↔ typ.Admits o w u)

theorem named_group (w : World) {u : Bytes} (hu : u.head? ≠ some '@'.toUInt8) (g : Bytes) :
    named w u ('@'.toUInt8 :: g) = true ↔ (g, u) ∈ w.groups := by
  have h : '@'.toUInt8 :: g ≠ u := fun h => hu (h ▸ rfl)
  rw [named, decide_eq_false h]
  exact decide_eq_true_iff

theorem named_user (w : World) {v : Bytes} (hv : v.head? ≠ some '@'.toUInt8) (u : Bytes) :
    named w u v = true ↔ u = v := by
  simp [named, hv, eq_comm]

theorem nameRe_head {n : Bytes} (hn : nameRe n = true) : n.head? ≠ some '@'.toUInt8 := fun h =>
  nameRe_notMem hn (by decide) (List.mem_of_head? h)

theorem words_priv {o : Bytes} (ho : nameRe o = true) :
    words (o ++ bytes " @smbadmins") = [o, bytes "@smbadmins"] := by
  have hsp : ∀ c ∈ o, ¬ (c = tab ∨ c = ','.toUInt8) := by
    rintro c hc (rfl | rfl)
    · exact nameRe_notMem ho (by decide) hc
    · exact nameRe_notMem ho (by decide) hc
  have hm : o.map (fun c => if c = tab ∨ c = ','.toUInt8 then space else c) = o :=
    (List.map_congr_left fun c hc => if_neg (hsp c hc)).trans (List.map_id' o)
  have hmap : (o ++ bytes " @smbadmins").map
      (fun c => if c = tab ∨ c = ','.toUInt8 then space else c) =
        o ++ space :: bytes "@smbadmins" := by
    rw [List.map_append, hm]
    rfl
  unfold words
  rw [hmap, records_piece (nameRe_notMem ho (by decide)), List.filter_cons_of_pos]
  · rfl
  · simpa using nameRe_ne_nil ho

theorem validUsers_priv (n : Bytes) {o : Bytes} (ho : nameRe o = true) :
    validUsers (shareLines n .priv o) = [o, bytes "@smbadmins"] := by
  have h : validUsers (shareLines n .priv o) =
    words ((o ++ bytes " @smbadmins").dropWhile isBlank) := rfl
  rw [h, dropWhile_name ho _ _ isBlank_notName, words_priv ho]

theorem admitted_guest {ls : List Line} (hg : guestOk ls = true) (w : World) (u : Bytes) :
    admitted w u ls = true := by
  simp [admitted, hg]

theorem admitted_priv {ls : List Line} {o : Bytes} (hg : guestOk ls = false)
    (hv : validUsers ls = [o, bytes "@smbadmins"]) (ho : nameRe o = true) (w : World) {u : Bytes}
    (hu : u.head? ≠ some '@'.toUInt8) :
    admitted w u ls = true ↔ u = o ∨ (smbadmins, u) ∈ w.groups := by
  have hs : named w u (bytes "@smbadmins") = true ↔ (smbadmins, u) ∈ w.groups :=
    named_group w hu smbadmins
  simp [admitted, hg, hv, hs, named_user w (nameRe_head ho)]

theorem admitted_family {ls : List Line} (hg : guestOk ls = false)
    (hv : validUsers ls = [bytes "@users"]) (w : World) {u : Bytes}
    (hu : u.head? ≠ some '@'.toUInt8) : admitted w u ls = true ↔ (users, u) ∈ w.groups := by
  have hs : named w u (bytes "@users") = true ↔ (users, u) ∈ w.groups := named_group w hu users
  simp [admitted, hg, hv, hs]

theorem shaped_share {n o : Bytes} {typ : ShareType} (hn : nameRe n = true)
    (hg : n ≠ bytes "global") (ho : typ = .priv → nameRe o = true) :
    Shaped (header n, shareLines n typ o) n typ o where
  header := rfl
  name := hn
  owner := ho
  row := sectionRow_share hn hg ho
  admitted := by
    intro w u hu
    cases typ with
    | priv => exact admitted_priv rfl (validUsers_priv n (ho rfl)) (ho rfl) w hu
    | family => exact admitted_family rfl rfl w hu
    | guest => exact ⟨fun _ => trivial, fun _ => admitted_guest rfl w u⟩

theorem shaped_public : Shaped (header (bytes "public"), publicLines) (bytes "public") .guest [] where
  header := rfl
  name := by decide
  owner := nofun
  row := sectionRow_public
  admitted := fun w u _ => ⟨fun _ => trivial, fun _ => admitted_guest (by decide +kernel) w u⟩

theorem shaped_alpha : Shaped (header alpha, alphaLines) alpha .priv alpha where
  header := rfl
  name := by decide
  owner := fun _ => by decide
  row := sectionRow_alpha
  admitted := fun w u hu =>
    admitted_priv (by decide +kernel) (by decide +kernel) (by decide) w hu

theorem Known.shape {s : Line × List Line} (h : Known s) :
    sectionRow s = [] ∨ ∃ n typ o, Shaped s n typ o := by
  cases h with
  | stage3Global => exact .inl sectionRow_global_stage3
  | stage3Public => exact .inr ⟨_, _, _, shaped_public⟩
  | stage3Alpha => exact .inr ⟨_, _, _, shaped_alpha⟩
  | @share n o typ hn ho =>
    by_cases hg : n = bytes "global"
    · exact .inl (sectionRow_global hn hg ho)
    · exact .inr ⟨n, typ, o, shaped_share hn hg ho⟩

/-! ## The invariants -/

/-- Who is where. -/
structure Members (w : World) : Prop where
  passdb : ∀ u ∈ w.passdb, u = alpha ∨ (nameRe u = true ∧ (users, u) ∈ w.groups)
  names : ∀ p ∈ w.groups, nameRe p.2 = true
  alphaAdmin : (smbadmins, alpha) ∈ w.groups
  alphaUsers : (users, alpha) ∉ w.groups

theorem alpha_protected : alpha ∈ PROTECTED_USERS := by decide

theorem users_ne_smbadmins : users ≠ smbadmins := by decide

theorem Members.of_stores {w w' : World} (h : Members w) (hs : w'.stores = w.stores) :
    Members w' := by
  constructor
  · rw [stores_passdb hs, stores_groups hs]; exact h.passdb
  · rw [stores_groups hs]; exact h.names
  · rw [stores_groups hs]; exact h.alphaAdmin
  · rw [stores_groups hs]; exact h.alphaUsers

/-- One more membership, or none. -/
theorem Members.more {w w' : World} (h : Members w) {g u : Bytes}
    (hk : ∀ p ∈ w.groups, p ∈ w'.groups) (hg : ∀ p ∈ w'.groups, p ∈ w.groups ∨ p = (g, u))
    (hp : w'.passdb = w.passdb) (hn : nameRe u = true) (ha : (users, alpha) ≠ (g, u)) :
    Members w' where
  passdb v hv := by
    rw [hp] at hv
    exact (h.passdb v hv).imp_right fun hv => ⟨hv.1, hk _ hv.2⟩
  names p hm := by
    rcases hg p hm with hm | rfl
    · exact h.names p hm
    · exact hn
  alphaAdmin := hk _ h.alphaAdmin
  alphaUsers hm := (hg _ hm).elim h.alphaUsers ha

/-- Fewer memberships: what the SMB accounts and `alpha` need is kept. -/
theorem Members.fewer {w w' : World} (h : Members w) {keep : Bytes × Bytes → Bool}
    (hg : w'.groups = w.groups.filter keep) (hp : w'.passdb = w.passdb)
    (hu : ∀ v ∈ w.passdb, keep (users, v) = true) (ha : keep (smbadmins, alpha) = true) :
    Members w' where
  passdb v hv := by
    rw [hp] at hv
    rw [hg]
    exact (h.passdb v hv).imp_right fun hm => ⟨hm.1, List.mem_filter.2 ⟨hm.2, hu v hv⟩⟩
  names p hm := by
    rw [hg] at hm
    exact h.names p (List.mem_of_mem_filter hm)
  alphaAdmin := by
    rw [hg]
    exact List.mem_filter.2 ⟨h.alphaAdmin, ha⟩
  alphaUsers hm := by
    rw [hg] at hm
    exact h.alphaUsers (List.mem_of_mem_filter hm)

theorem Members.joined {e : Env} {w : World} (h : Members w) {u : Bytes} (hn : nameRe u = true)
    (hp : u ∉ PROTECTED_USERS) : Members (joined e u w) := by
  refine h.more (g := users) (fun p hm => mem_joined.2 (.inl hm)) (fun p hm => ?_)
    (joined_passdb e u w) hn fun hm => ?_
  · exact (mem_joined.1 hm).imp_right fun hm => hm.2
  · exact hp ((Prod.mk.inj hm).2 ▸ alpha_protected)

theorem Members.setPassword {w : World} (h : Members w) {u : Bytes} (p : Option Bytes)
    (hu : u = alpha ∨ (nameRe u = true ∧ (users, u) ∈ w.groups)) : Members (w.setPassword u p) where
  passdb := by
    intro v hv
    rcases AList.mem_insert _ |>.1 hv with rfl | hv
    · exact hu
    · exact h.passdb v hv
  names := h.names
  alphaAdmin := h.alphaAdmin
  alphaUsers := h.alphaUsers

theorem notMem_smbDeleted {e : Env} (he : Succeeds e) (u : Bytes) (w : World) :
    u ∉ (smbDeleted e u w).passdb := by
  unfold smbDeleted
  split
  · rw [exec_smbpasswdDel, if_pos (he.ok _)]
    exact fun h => (AList.mem_erase.1 h).1 rfl
  · rename_i h
    exact fun hu => h ⟨he.ok _, hu⟩

theorem Members.smbDeleted {e : Env} (he : Succeeds e) {w : World} (h : Members w) (u : Bytes) :
    Members (smbDeleted e u w) := by
  unfold Panel.smbDeleted
  split
  · rw [exec_smbpasswdDel, if_pos (he.ok _)]
    exact ⟨fun v hv => h.passdb v (AList.mem_erase.1 hv).2, h.names, h.alphaAdmin,
      h.alphaUsers⟩
  · exact h

theorem members_stores {e : Env} (he : Succeeds e) {c : Call} {ok : Bool} {w w' : World}
    (h : Members w) (hc : StoreChange e c ok w w') : Members w' := by
  cases hc with
  | same hs => exact h.of_stores hs
  | joined _ hn hp hs => exact (h.joined hn hp).of_stores hs
  | created _ hn hp hs =>
    refine Members.of_stores ((h.joined hn hp).setPassword _ (.inr ⟨hn, ?_⟩)) hs
    exact mem_joined.2 (.inr ⟨he.ok _, rfl⟩)
  | password _ hn hu hs => exact (h.setPassword _ (h.passdb _ hu)).of_stores hs
  | admin _ hn ha hu _ hs =>
    subst hs
    rw [exec_usermod, if_pos ⟨he.ok _, hu⟩]
    exact h.more (fun p hm => mem_join.2 (.inl hm)) (fun p hm => mem_join.1 hm) (by simp) hn
      fun hm => users_ne_smbadmins (Prod.mk.inj hm).1
  | notAdmin _ hn ha _ _ hs =>
    subst hs
    rw [exec_gpasswd, if_pos (he.ok _)]
    refine h.fewer rfl rfl (fun v _ => ?_) ?_
    · simp [users_ne_smbadmins]
    · simpa using fun hg => ha hg.symm
  | smbDeleted _ _ _ hs => exact (h.smbDeleted he c.name).of_stores hs
  | deleted _ _ hp hs =>
    refine Members.of_stores ?_ hs
    have hm := h.smbDeleted he c.name
    have hgone := notMem_smbDeleted he c.name w
    rw [accountDeleted, exec_deluser]
    split_ifs
    · refine hm.fewer rfl rfl (fun v hv => ?_) ?_
      · simpa using fun hvc : v = c.name => hgone (hvc ▸ hv)
      · simpa using fun hvc : alpha = c.name => hp (hvc ▸ alpha_protected)
    · exact hm
    · exact hm

/-- The two invariants. -/
structure Granted (w : World) : Prop where
  conf : KnownConf w.smb
  members : Members w

theorem granted_stage3 (base : Base) : Granted (stage3World base) where
  conf := knownConf_stage3
  members := by
    constructor
    · exact fun u (hu : u ∈ [alpha]) => .inl (List.mem_singleton.1 hu)
    · show ∀ p ∈ [(bytes "sudo", alpha), (smbadmins, alpha)], nameRe p.2 = true
      decide
    · show (smbadmins, alpha) ∈ [(bytes "sudo", alpha), (smbadmins, alpha)]
      decide
    · show (users, alpha) ∉ [(bytes "sudo", alpha), (smbadmins, alpha)]
      decide

theorem granted_run {cs : List (Env × Call)} (hcs : ∀ p ∈ cs, Succeeds p.1) {w : World}
    (h : Granted w) : Granted (runCalls w cs) :=
  runCalls_keeps (fun p hp w h =>
    ⟨knownConf_exec (hcs p hp) p.2 h.conf,
      members_stores (hcs p hp) h.members (exec_stores p.1 p.2 w)⟩) h

/-! ## What the panel shows -/

/-- The reply lists `a` with the remark `b`. -/
def Lists (reply : Except Bytes Bytes) (a b : Bytes) : Prop :=
  match reply with
  | .ok t => tab ∉ a ∧ a ++ tab :: b ∈ lines t
  | .error _ => False

instance (reply : Except Bytes Bytes) (a b : Bytes) : Decidable (Lists reply a b) :=
  match reply with
  | .ok t => inferInstanceAs (Decidable (tab ∉ a ∧ a ++ tab :: b ∈ lines t))
  | .error _ => inferInstanceAs (Decidable False)

theorem user_list_exec {e : Env} (he : Succeeds e) (args : List Bytes) (stdin : Bytes) (w : World) :
    ((⟨.userList, args, stdin⟩ : Call).exec e w).1 =
      .ok (unlines (w.passdb.keys.map (userLine (adminsText (w.members smbadmins))))) := by
  have h : ((⟨.userList, args, stdin⟩ : Call).exec e w).1 =
      .ok (unlines (((exec e .pdbedit w).1 : List Bytes).map
        (userLine (adminsText ((exec e (.getent smbadmins) w).1 : List Bytes))))) := rfl
  rw [h, exec_pdbedit, exec_getent, if_pos (he.ok _), if_pos (he.ok _)]

theorem mem_members {w : World} {g u : Bytes} : u ∈ w.members g ↔ (g, u) ∈ w.groups := by
  unfold World.members
  simp only [List.mem_map, List.mem_filter, decide_eq_true_eq]
  exact ⟨fun ⟨p, ⟨hp, hg⟩, hu⟩ => hg ▸ hu ▸ hp, fun h => ⟨_, ⟨h, rfl⟩, rfl⟩⟩

/-- The mark of `user-list` is membership of `smbadmins`. -/
theorem markedAdmin_iff {w : World} (h : Members w) {u : Bytes} (hu : nameRe u = true) :
    markedAdmin (adminsText (w.members smbadmins)) u = true ↔ (smbadmins, u) ∈ w.groups := by
  have hc : ∀ m ∈ w.members smbadmins, comma ∉ m := fun m hm =>
    nameRe_notMem (h.names _ (mem_members.1 hm)) (by decide)
  have hne : w.members smbadmins ≠ [] := List.ne_nil_of_mem (mem_members.2 h.alphaAdmin)
  have hr : replaceFirst (comma :: (u ++ [comma])) [] (adminsText (w.members smbadmins)) ≠
      adminsText (w.members smbadmins) ↔ (smbadmins, u) ∈ w.groups := by
    rw [replaceFirst_ne_iff (by simp), adminsText, intercalate_close comma hne,
      infix_terminate_iff (nameRe_notMem hu (by decide)) (nameRe_ne_nil hu) hc, mem_members]
  simp only [markedAdmin, Bool.or_eq_true, decide_eq_true_eq, hr, or_iff_right_iff_imp]
  rintro rfl
  exact h.alphaAdmin

theorem lists_user {e : Env} (he : Succeeds e) {args : List Bytes} {stdin : Bytes} {w : World}
    (h : Members w) {u mark : Bytes}
    (hl : Lists ((⟨.userList, args, stdin⟩ : Call).exec e w).1 u mark) :
    (u = alpha ∨ (nameRe u = true ∧ (users, u) ∈ w.groups)) ∧
      (mark = bytes "admin" ↔ (smbadmins, u) ∈ w.groups) := by
  rw [user_list_exec he] at hl
  obtain ⟨htab, hmem⟩ := hl
  have hname : ∀ v ∈ w.passdb.keys, nameRe v = true := by
    intro v hv
    rcases h.passdb v hv with rfl | hv
    · decide
    · exact hv.1
  have hnl : ∀ l ∈ w.passdb.keys.map (userLine (adminsText (w.members smbadmins))), nl ∉ l := by
    intro l hl
    obtain ⟨v, hv, rfl⟩ := List.mem_map.1 hl
    unfold userLine
    simp only [List.mem_append, List.mem_cons, not_or]
    refine ⟨nameRe_nl (hname v hv), by decide, ?_⟩
    split <;> decide
  rw [lines, unlines, records_terminate hnl] at hmem
  obtain ⟨v, hv, hline⟩ := List.mem_map.1 hmem
  unfold userLine at hline
  obtain ⟨rfl, rfl⟩ := append_sep_inj (nameRe_tab (hname v hv)) htab hline
  refine ⟨h.passdb v hv, ?_⟩
  rw [← markedAdmin_iff h (hname v hv)]
  cases markedAdmin (adminsText (w.members smbadmins)) v <;> simp
  decide

theorem description_nl {typ : ShareType} {o : Bytes} (ho : typ = .priv → nameRe o = true) :
    nl ∉ typ.description o := by
  cases typ with
  | priv =>
    simp only [ShareType.description, List.mem_append, not_or]
    exact ⟨nameRe_nl (ho rfl), by decide⟩
  | family => exact (by decide : nl ∉ bytes "all users")
  | guest => exact (by decide : nl ∉ bytes "anyone on the network (guest, no password)")

/-- A listed share is a section, described by its type. -/
theorem lists_share {e : Env} (he : Succeeds e) {args : List Bytes} {stdin : Bytes} {w : World}
    (h : KnownConf w.smb) {s d : Bytes}
    (hl : Lists ((⟨.shareList, args, stdin⟩ : Call).exec e w).1 s d) :
    ∃ sec ∈ sections w.smb, ∃ typ o, Shaped sec s typ o ∧ d = typ.description o := by
  rw [share_list_exec (he _)] at hl
  obtain ⟨htab, hmem⟩ := hl
  have hrow : ∀ sec ∈ sections w.smb, ∀ l ∈ sectionRow sec,
      ∃ n typ o, Shaped sec n typ o ∧ l = n ++ tab :: typ.description o := by
    intro sec hsec l hl
    rcases (h.known sec hsec).shape with h0 | ⟨n, typ, o, hs⟩
    · rw [h0] at hl; cases hl
    · rw [hs.row, List.mem_singleton] at hl
      exact ⟨n, typ, o, hs, hl⟩
  rw [listLines_eq] at hmem
  have hnl : ∀ l ∈ (sections w.smb).flatMap sectionRow, nl ∉ l := by
    intro l hl
    obtain ⟨sec, hsec, hl⟩ := List.mem_flatMap.1 hl
    obtain ⟨n, typ, o, hs, rfl⟩ := hrow sec hsec l hl
    simp only [List.mem_append, List.mem_cons, not_or]
    exact ⟨nameRe_nl hs.name, by decide, description_nl hs.owner⟩
  rw [lines, unlines, records_terminate hnl] at hmem
  obtain ⟨sec, hsec, hl⟩ := List.mem_flatMap.1 hmem
  obtain ⟨n, typ, o, hs, he⟩ := hrow sec hsec _ hl
  obtain ⟨rfl, rfl⟩ := append_sep_inj htab (nameRe_tab hs.name) he
  exact ⟨sec, hsec, typ, o, hs, rfl⟩

/-- Samba's decision about a listed share is that of its type. -/
theorem admits_iff {w : World} (h : KnownConf w.smb) {sec : Line × List Line} {n o : Bytes}
    {typ : ShareType} (hsec : sec ∈ sections w.smb) (hs : Shaped sec n typ o) {u : Bytes}
    (hu : u.head? ≠ some '@'.toUInt8) : admits w u n = true ↔ typ.Admits o w u := by
  rw [← hs.admitted w u hu, admits, List.any_eq_true]
  constructor
  · rintro ⟨sec', hsec', hh⟩
    simp only [Bool.and_eq_true, decide_eq_true_eq] at hh
    have : sec' = sec := List.inj_on_of_nodup_map h.distinct hsec' hsec (hh.1.trans hs.header.symm)
    exact this ▸ hh.2
  · exact fun ha => ⟨sec, hsec, by simp [hs.header, ha]⟩

/-- The panel tells the truth about `u`, marked `mark`, and the share `s`, described as `d`. -/
structure AsDescribed (w : World) (u mark s d : Bytes) : Prop where
  family : d = bytes "all users" → admits w u s = true
  priv : ∀ o, d = o ++ bytes " + admins" → (admits w u s = true ↔ u = o ∨ mark = bytes "admin")
  guest : d = bytes "anyone on the network (guest, no password)" → admits w u s = true
  admin : mark = bytes "admin" → admits w u s = true

theorem guest_ne_family :
    bytes "anyone on the network (guest, no password)" ≠ bytes "all users" := by decide

theorem guest_ne_priv (o : Bytes) :
    bytes "anyone on the network (guest, no password)" ≠ o ++ bytes " + admins" := fun h => by
  have hl := congrArg List.getLast? h
  rw [List.getLast?_append] at hl
  exact absurd hl (by decide : some ')'.toUInt8 ≠ some 's'.toUInt8)

theorem family_ne_priv (o : Bytes) : bytes "all users" ≠ o ++ bytes " + admins" := fun h => by
  have hl : 9 = o.length + 9 := (congrArg List.length h).trans List.length_append
  obtain rfl : o = [] := List.eq_nil_of_length_eq_zero (by omega)
  exact absurd h (by decide)

/-- **The panel's description of a share holds for every user but `alpha`, and for `alpha` unless
the share is for all users**, over every run from the box as built. -/
theorem access_matrix (base : Base) (cs : List (Env × Call))
    (hcs : ∀ p ∈ cs, Succeeds p.1) (e : Env) (he : Succeeds e) (args args' : List Bytes)
    (stdin stdin' u mark s d : Bytes) :
    let w := runCalls (stage3World base) cs
    Lists ((⟨.userList, args, stdin⟩ : Call).exec e w).1 u mark →
    Lists ((⟨.shareList, args', stdin'⟩ : Call).exec e w).1 s d →
      (AsDescribed w u mark s d ↔ ¬ (u = alpha ∧ d = bytes "all users")) := by
  intro w hu hs
  have hw : Granted w := granted_run hcs (granted_stage3 base)
  obtain ⟨hmem, hmark⟩ := lists_user he hw.members hu
  obtain ⟨sec, hsec, typ, o, hsh, rfl⟩ := lists_share he hw.conf hs
  have hhead : u.head? ≠ some '@'.toUInt8 := by
    rcases hmem with rfl | h
    · decide
    · exact nameRe_head h.1
  have hadm : admits w u s = true ↔ typ.Admits o w u := admits_iff hw.conf hsec hsh hhead
  cases typ with
  | guest =>
    refine iff_of_true ?_ fun h => guest_ne_family h.2
    exact ⟨fun h => absurd h guest_ne_family, fun o' h => absurd h (guest_ne_priv o'),
      fun _ => hadm.2 trivial, fun _ => hadm.2 trivial⟩
  | family =>
    constructor
    · rintro hd ⟨rfl, -⟩
      exact hw.members.alphaUsers (hadm.1 (hd.family rfl))
    · intro hne
      have hin : (users, u) ∈ w.groups := (hmem.resolve_left fun h => hne ⟨h, rfl⟩).2
      exact ⟨fun _ => hadm.2 hin, fun o' h => absurd h (family_ne_priv o'),
        fun _ => hadm.2 hin, fun _ => hadm.2 hin⟩
  | priv =>
    refine iff_of_true ?_ fun h => family_ne_priv o h.2.symm
    refine ⟨fun h => absurd h.symm (family_ne_priv o), fun o' h => ?_,
      fun h => absurd h.symm (guest_ne_priv o), fun h => hadm.2 (.inr (hmark.1 h))⟩
    obtain rfl : o = o' := List.append_cancel_right h
    exact hadm.trans (or_congr_right hmark.symm)

/-- An ordinary user and a family share. -/
theorem access_bob :
    AsDescribed (runCalls (stage3World ∅) [(allOk, ⟨.userAdd, [bytes "bob"], []⟩),
      (allOk, ⟨.shareAdd, [bytes "media"], []⟩)]) (bytes "bob") (bytes "-") (bytes "media")
      (bytes "all users") :=
  (access_matrix ∅ _ (by simp [succeeds_allOk]) allOk succeeds_allOk [] [] [] [] _ _ _ _
    (by decide +kernel) (by decide +kernel)).2 (by decide)

/-- The share for all users is closed to `alpha`, who is listed as an admin. -/
theorem media_closed_to_alpha :
    let w := runCalls (stage3World ∅) [(allOk, ⟨.shareAdd, [bytes "media"], []⟩)]
    Lists ((⟨.userList, [], []⟩ : Call).exec allOk w).1 alpha (bytes "admin") ∧
      Lists ((⟨.shareList, [], []⟩ : Call).exec allOk w).1 (bytes "media") (bytes "all users") ∧
      ¬ AsDescribed w alpha (bytes "admin") (bytes "media") (bytes "all users") := by
  intro w
  have h : admits w alpha (bytes "media") = false := by decide +kernel
  refine ⟨by decide +kernel, by decide +kernel, fun hd => ?_⟩
  rw [hd.family rfl] at h
  cases h

end Panel
