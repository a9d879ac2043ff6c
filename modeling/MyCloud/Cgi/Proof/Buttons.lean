import MyCloud.Cgi.Proof.Form
import MyCloud.Cgi.Proof.Password
import MyCloud.Cgi.Proof.Tables
import MyCloud.Panel.Proof.Ownership
import MyCloud.Panel.Proof.ShareDel
import MyCloud.Panel.Proof.System
import MyCloud.Panel.Proof.Truthful

/-!
# What the buttons do

A form that a page has is sent, later, in a state that other requests have made of the box.

* `field_value`: the page that is sent to reads the fields as they were filled in.
* `remove_button`: **a button "Remove" removes its share, if it is still there, and no other, unless the
  share is `usb`.**
* `user_button`: **a button of a user does what it says, and to no other user.**
-/

set_option autoImplicit false

namespace Cgi

open Shell Panel Script Html

/-! ## What is read of a form -/

/-- What `read` reads of a field. -/
theorem field_value {ps : Fields} (hps : ∀ p ∈ ps, isKey p.1) {k : String} (hk : isKey (bytes k))
    {v : Bytes} (h : value ps (bytes k) = v) (h0 : 0 ∉ v) (hl : v.getLast? ≠ some nl) :
    (formPost ps).get k = v := by
  rw [Request.get, field_post hk hps, h, subst_eq h0 hl]

theorem name_kept {n : Bytes} (hn : nameRe n = true) : 0 ∉ n ∧ n.getLast? ≠ some nl :=
  ⟨nameRe_notMem hn (by decide), fun h => nameRe_nl hn (List.mem_of_getLast? h)⟩

/-- What is sent of a form with a box. -/
theorem submits_box {action n box : Bytes} {ps : Fields}
    (h : Submits (actionForm action n [.checkbox box]).controls ps) :
    ps = [(bytes "action", action), (bytes "name", n), (box, bytes "on")] ∨
      ps = [(bytes "action", action), (bytes "name", n)] := by
  cases h with
  | hidden _ _ h =>
    cases h with
    | hidden _ _ h =>
      cases h with
      | ticked _ h =>
        cases h
        exact .inl rfl
      | unticked _ h =>
        cases h
        exact .inr rfl

/-- The action and the name of a form. -/
theorem form_get {action n : Bytes} (ha : nameRe action = true) (hn : nameRe n = true) (ps : Fields)
    (hps : ∀ p ∈ ps, isKey p.1) :
    (formPost ((bytes "action", action) :: (bytes "name", n) :: ps)).get "action" = action ∧
      (formPost ((bytes "action", action) :: (bytes "name", n) :: ps)).get "name" = n := by
  have hkeys : ∀ p ∈ (bytes "action", action) :: (bytes "name", n) :: ps, isKey p.1 := by
    simp only [List.forall_mem_cons]
    exact ⟨(by decide : isKey (bytes "action")), (by decide : isKey (bytes "name")), hps⟩
  exact ⟨field_value hkeys (by decide) rfl (name_kept ha).1 (name_kept ha).2,
    field_value hkeys (by decide) rfl (name_kept hn).1 (name_kept hn).2⟩

/-- The fields of a form with the box `confirm`, as they are read. -/
theorem box_get {action n : Bytes} (ha : nameRe action = true) (hn : nameRe n = true) {ps : Fields}
    (h : Submits (actionForm action n [.checkbox (bytes "confirm")]).controls ps) :
    (formPost ps).get "action" = action ∧ (formPost ps).get "name" = n ∧
      ((formPost ps).get "confirm" = bytes "on" ↔ (bytes "confirm", bytes "on") ∈ ps) := by
  have ha' : isKey (bytes "action") := by decide
  have hn' : isKey (bytes "name") := by decide
  have hc' : isKey (bytes "confirm") := by decide
  rcases submits_box h with rfl | rfl
  · obtain ⟨h1, h2⟩ := form_get ha hn [(bytes "confirm", bytes "on")] (by simpa using hc')
    refine ⟨h1, h2, iff_of_true (field_value ?_ hc' rfl (by decide) (by decide)) (by simp)⟩
    simp [ha', hn', hc']
  · obtain ⟨h1, h2⟩ := form_get ha hn [] (by simp)
    refine ⟨h1, h2, iff_of_false (fun hc => ?_) ?_⟩
    · have hempty : (formPost [(bytes "action", action), (bytes "name", n)]).get "confirm" = [] :=
        field_value (by simp [ha', hn']) hc' rfl (by decide) (by decide)
      rw [hempty] at hc
      exact absurd hc (by decide)
    · simp only [List.mem_cons, List.not_mem_nil, or_false, Prod.mk.injEq, not_or]
      exact ⟨fun hc => absurd hc.1 (by decide), fun hc => absurd hc.1 (by decide)⟩

/-! ## Shares -/

/-- The names that the page protects. -/
theorem is_protected_iff {s : Bytes} (hs : nameRe s = true) : is_protected s = true ↔
    s ∈ ["global", "public", "admin", "alpha", "homes", "printers"].map bytes := by
  have hp : PROTECTED ++ [space] =
      terminate space (["global", "public", "admin", "alpha", "homes", "printers"].map bytes) := by
    decide
  rw [is_protected, decide_eq_true_iff, List.cons_append, List.cons_append, hp]
  exact infix_terminate_iff (nameRe_notMem hs (by decide)) (nameRe_ne_nil hs) (by decide)

/-- `panel-op` protects one name more. -/
theorem protected_share_iff {s : Bytes} (hs : nameRe s = true) (h : is_protected s = false) :
    s ∈ PROTECTED_SHARES ↔ s = bytes "usb" := by
  have hno : s ∉ ["global", "public", "admin", "alpha", "homes", "printers"].map bytes := fun hm => by
    rw [(is_protected_iff hs).2 hm] at h
    cases h
  have hlist : PROTECTED_SHARES =
      ["global", "public", "admin", "alpha", "homes", "printers"].map bytes ++ [bytes "usb"] := by
    decide
  rw [hlist, List.mem_append, List.mem_singleton]
  exact or_iff_right hno

theorem known_name {s : Line × List Line} (h : Known s) :
    ∃ n, nameRe n = true ∧ s.1 = header n ∧ unbracket s.1 = n := by
  cases h with
  | stage3Global => exact ⟨bytes "global", by decide, rfl, by decide⟩
  | stage3Public => exact ⟨bytes "public", by decide, rfl, by decide⟩
  | stage3Alpha => exact ⟨alpha, by decide, rfl, by decide⟩
  | share hn _ => exact ⟨_, hn, rfl, unbracket_header hn⟩

variable {e : Env} {w : World}

theorem mem_shares_iff (h : KnownConf w.smb) {s : Bytes} (hs : nameRe s = true)
    (hg : s ≠ bytes "global") : s ∈ shares w ↔ hasHeader s w.smb = true := by
  rw [hasHeader_iff h.exactHeaders hs, shares, List.mem_filter, List.mem_map]
  constructor
  · rintro ⟨⟨sec, hsec, hn⟩, -⟩
    obtain ⟨n, -, hh, hn'⟩ := known_name (h.known sec hsec)
    exact ⟨sec, hsec, by rw [hh, ← hn', hn]⟩
  · rintro ⟨sec, hsec, hh⟩
    exact ⟨⟨sec, hsec, by rw [hh, unbracket_header hs]⟩, by simpa using hg⟩

theorem shares_awkDel (h : KnownConf w.smb) (s : Bytes) :
    shares { w with smb := awkDel s w.smb } = (shares w).filter (· ≠ s) := by
  have hsec : (sections w.smb).filter (fun sec => sec.1 ≠ header s) =
      (sections w.smb).filter fun sec => unbracket sec.1 ≠ s := by
    refine List.filter_congr fun sec hsec => ?_
    obtain ⟨n, -, hh, hn⟩ := known_name (h.known sec hsec)
    rw [decide_eq_decide, hn, hh]
    exact not_congr (header_inj ..)
  unfold shares
  dsimp only
  rw [sections_awkDel, hsec, List.filter_filter, List.filter_map, List.filter_map, List.filter_filter]
  refine congrArg (List.map _) (List.filter_congr fun sec _ => ?_)
  exact Bool.and_comm _ _

/-- What `shares.cgi` does with a form to remove a share. -/
theorem shares_cgi_remove {s : Bytes} (hs : nameRe s = true) {ps : Fields}
    (h : Submits (removeForm s).controls ps) (e : Env) (w : World) :
    shares_cgi e (formPost ps) w =
      if (bytes "confirm", bytes "on") ∈ ps then
        (some ((share_del [s]).eval (exec e) w).1, ((share_del [s]).eval (exec e) w).2)
      else (some (.error (bytes "tick the confirm box to remove")), w) := by
  obtain ⟨hact, hname, hconfirm⟩ := box_get (by decide) hs h
  have hadd : bytes "del" ≠ bytes "add" := by decide
  have hargv : Call.ofArgv [bytes "share-del", s] [] = ⟨.shareDel, [s], []⟩ := rfl
  have hmethod : (formPost ps).method = POST := rfl
  simp only [shares_cgi, if_pos hmethod, shares_post, hact, hadd, if_false, if_true, hconfirm, hname,
    sudo_op, hargv]
  split <;> rfl

/-- The reply says OK. -/
def Accepted (reply : Option (Except Bytes Bytes)) : Prop := ∃ m, reply = some (.ok m)

/-- `share-del` of a name that the page does not protect. -/
theorem share_del_exec (he : Succeeds e) (h : KnownConf w.smb) {s : Bytes} (hs : nameRe s = true)
    (hg : s ≠ bytes "global") (hp : is_protected s = false) :
    let q := (share_del [s]).eval (exec e) w
    (Accepted (some q.1) ↔ s ∈ shares w ∧ s ≠ bytes "usb") ∧
      shares q.2 = if s = bytes "usb" then shares w else (shares w).filter (· ≠ s) := by
  intro q
  by_cases hu : s = bytes "usb"
  · have hq : q = (.error (bytes "protected share"), w) :=
      share_del_protected [s] hs ((protected_share_iff hs hp).2 hu)
    rw [hq, if_pos hu]
    refine ⟨iff_of_false ?_ fun h => h.2 hu, rfl⟩
    rintro ⟨m, hm⟩
    cases hm
  · have hnp : s ∉ PROTECTED_SHARES := fun hm => hu ((protected_share_iff hs hp).1 hm)
    have hq : q = _ := share_del_eval [s] hs hnp
    have harg : arg [s] 0 = s := rfl
    rw [harg, he.greps, share_del_block_eval, he.greps] at hq
    rw [if_neg hu]
    by_cases hh : hasHeader s w.smb = true
    · rw [if_pos hh, if_pos hh, if_pos (he.ok _), if_pos (he.ok _), he.copies.delConf] at hq
      rw [hq]
      exact ⟨iff_of_true ⟨_, rfl⟩ ⟨(mem_shares_iff h hs hg).2 hh, hu⟩, shares_awkDel h s⟩
    · have hno : s ∉ shares w := fun hm => hh ((mem_shares_iff h hs hg).1 hm)
      rw [if_neg hh] at hq
      rw [hq]
      refine ⟨iff_of_false ?_ fun h => hno h.1, ?_⟩
      · rintro ⟨m, hm⟩
        cases hm
      · exact (List.filter_eq_self.2 fun t ht => by simpa using fun hts : t = s => hno (hts ▸ ht)).symm

/-- **A button to remove a share, on a page that is older than the state it is pressed in: it removes
that share and no other, if the box is ticked and the share still there, but never the share `usb`,
which the page does not protect and `panel-op` does.** -/
theorem remove_button (base : Base) {cs cs' : List (Env × Call)}
    (hcs : ∀ p ∈ cs, Succeeds p.1) (hcs' : ∀ p ∈ cs', Succeeds p.1) {e e' : Env} (he : Succeeds e)
    (he' : Succeeds e') (r : Request) {f : Form} {ps : Fields} :
    let p := shares_page e r (runCalls (stage3World base) cs)
    let w := runCalls p.2 cs'
    let q := shares_cgi e' (formPost ps) w
    f ∈ forms (document p.1) → f ≠ addShareForm → Submits f.controls ps →
    ∃ s ∈ shares p.2, f = removeForm s ∧
      (if (bytes "confirm", bytes "on") ∈ ps then
        (Accepted q.1 ↔ s ∈ shares w ∧ s ≠ bytes "usb") ∧
          shares q.2 = if s = bytes "usb" then shares w else (shares w).filter (· ≠ s)
      else ¬ Accepted q.1 ∧ q.2 = w) := by
  intro p w q hf hne hps
  have hp := granted_shares_cgi he r (granted_run hcs (granted_stage3 base))
  have hw : Granted w := granted_run hcs' hp
  rw [(shares_page_granted he r hp).1, List.mem_append, List.mem_singleton] at hf
  obtain ⟨s, hs, rfl⟩ := List.mem_map.1 (hf.resolve_right hne)
  rw [List.mem_filter, Bool.not_eq_true'] at hs
  obtain ⟨hmem, hprot⟩ := hs
  obtain ⟨hall, hg⟩ := List.mem_filter.1 hmem
  obtain ⟨sec, hsec, rfl⟩ := List.mem_map.1 hall
  obtain ⟨n, hn, -, he⟩ := known_name (hp.conf.known sec hsec)
  rw [he] at hmem hprot hg hps ⊢
  refine ⟨n, hmem, rfl, ?_⟩
  have hq : q = _ := shares_cgi_remove hn hps e' w
  split
  · rename_i hc
    rw [if_pos hc] at hq
    rw [hq]
    exact share_del_exec he' hw.conf hn (by simpa using hg) hprot
  · rename_i hc
    rw [if_neg hc] at hq
    rw [hq]
    refine ⟨?_, rfl⟩
    rintro ⟨m, hm⟩
    cases hm

/-- The page offers to remove the share `usb`, and the box refuses. -/
theorem remove_button_usb :
    let w := runCalls (stage3World ∅) [(allOk, ⟨.shareAdd, [bytes "usb"], []⟩)]
    let p := shares_page allOk ⟨[], none, []⟩ w
    removeForm (bytes "usb") ∈ forms (document p.1) ∧
      ¬ Accepted (shares_cgi allOk (formPost [(bytes "action", bytes "del"),
        (bytes "name", bytes "usb"), (bytes "confirm", bytes "on")]) p.2).1 := by
  intro w p
  have hcs : ∀ c ∈ [(allOk, (⟨.shareAdd, [bytes "usb"], []⟩ : Call))], Succeeds c.1 := by
    simp [succeeds_allOk]
  have hnone : ∀ c ∈ ([] : List (Env × Call)), Succeeds c.1 := by simp
  have hw : Granted w := granted_run hcs (granted_stage3 ∅)
  have hf : removeForm (bytes "usb") ∈ forms (document p.1) := by
    rw [(shares_page_granted succeeds_allOk _ (granted_shares_cgi succeeds_allOk _ hw)).1]
    refine List.mem_append_left _ (List.mem_map_of_mem ?_)
    exact List.mem_filter.2 ⟨by decide +kernel, by decide +kernel⟩
  refine ⟨hf, ?_⟩
  obtain ⟨s, -, hs, h⟩ := remove_button ∅ hcs hnone succeeds_allOk succeeds_allOk _ hf
    (by decide) (.hidden _ _ (.hidden _ _ (.ticked _ .nil)))
  rw [if_pos (by simp)] at h
  have hn : bytes "usb" = s := by
    simpa [removeForm, actionForm] using hs
  exact fun ha => (h.1.1 ha).2 hn.symm

/-! ## Users -/

/-- Who has an SMB account has a unix account, and is no protected user but `alpha`. -/
def Listed (w : World) : Prop :=
  ∀ u ∈ w.passdb, u ∈ w.accounts ∧ (u = alpha ∨ u ∉ PROTECTED_USERS)

theorem joined_accounts (e : Env) (u : Bytes) (w : World) :
    (joined e u w).accounts = (accountWorld u w).accounts := by
  rw [joined, exec_usermod]
  split
  · rw [World.join]
    split <;> rfl
  · rfl

theorem listed_exec (he : Succeeds e) (h : Listed w) (c : Call) : Listed (c.exec e w).2 := by
  intro u hu
  by_cases hc : u = c.name
  swap
  · have hv := view_exec e w hc
    have ha : (c.exec e w).2.accounts.lookup u = w.accounts.lookup u := congrArg (·.1) hv
    have hp : (c.exec e w).2.passdb.lookup u = w.passdb.lookup u := congrArg (·.2.1) hv
    rw [← AList.lookup_isSome, hp, AList.lookup_isSome] at hu
    rw [← AList.lookup_isSome, ha, AList.lookup_isSome]
    exact h u hu
  subst hc
  have hs := exec_stores e c w
  generalize (c.exec e w).2 = w' at hu hs ⊢
  generalize c.accepted e w = ok at hs
  cases hs with
  | same hs =>
    rw [stores_passdb hs] at hu
    rw [stores_accounts hs]
    exact h _ hu
  | joined _ _ hp hs =>
    rw [stores_accounts hs, joined_accounts]
    exact ⟨mem_accountWorld _ _, .inr hp⟩
  | created _ _ hp hs =>
    rw [stores_accounts hs]
    refine ⟨?_, .inr hp⟩
    rw [World.setPassword, joined_accounts]
    exact mem_accountWorld _ _
  | password _ _ hu hs =>
    rw [stores_accounts hs]
    exact h _ hu
  | admin _ _ _ _ _ hs =>
    have hkeep : w'.accounts = w.accounts ∧ w'.passdb = w.passdb := by
      rw [hs, exec_usermod]
      split
      · rw [World.join]
        split <;> exact ⟨rfl, rfl⟩
      · exact ⟨rfl, rfl⟩
    rw [hkeep.2] at hu
    rw [hkeep.1]
    exact h _ hu
  | notAdmin _ _ _ _ _ hs =>
    have hkeep : w'.accounts = w.accounts ∧ w'.passdb = w.passdb := by
      rw [hs, exec_gpasswd]
      split <;> exact ⟨rfl, rfl⟩
    rw [hkeep.2] at hu
    rw [hkeep.1]
    exact h _ hu
  | smbDeleted _ _ _ hs =>
    rw [stores_passdb hs] at hu
    exact absurd hu (notMem_smbDeleted he _ _)
  | deleted _ _ _ hs =>
    rw [stores_passdb hs, accountDeleted_passdb] at hu
    exact absurd hu (notMem_smbDeleted he _ _)

theorem listed_run {cs : List (Env × Call)} (hcs : ∀ p ∈ cs, Succeeds p.1) (h : Listed w) :
    Listed (runCalls w cs) := by
  induction cs generalizing w with
  | nil => exact h
  | cons p cs ih =>
    exact ih (fun q hq => hcs q (List.mem_cons_of_mem _ hq))
      (listed_exec (hcs p List.mem_cons_self) h p.2)

theorem listed_stage3 (base : Base) : Listed (stage3World base) := by
  intro u hu
  have hu : u ∈ [alpha] := hu
  obtain rfl := List.mem_singleton.1 hu
  exact ⟨(AList.mem_insert _).2 (.inl rfl), .inl rfl⟩

theorem listed_users_cgi (he : Succeeds e) (r : Request) (h : Listed w) :
    Listed (users_cgi e r w).2 := by
  rcases users_cgi_calls e r w with hq | ⟨c, -, hq⟩
  · rwa [hq]
  · rw [hq]
    exact listed_exec he h c

/-- `user-admin` of an account that is there. -/
theorem user_admin_exec (he : Succeeds e) {u state : Bytes} (hn : nameRe u = true) (ha : u ≠ alpha)
    (hu : u ∈ w.accounts) :
    (user_admin [u, state]).eval (exec e) w =
      if state = bytes "on" then
        (.ok (bytes "OK: " ++ u ++ bytes " is now an admin (access to all shares)"),
          w.join u smbadmins)
      else if state = bytes "off" then
        (.ok (bytes "OK: " ++ u ++ bytes " is no longer an admin"), w.leave u smbadmins)
      else (.error (bytes "bad admin state"), w) := by
  have h1 : (need_name (arg [u, state] 0)).eval (exec e) w = (.ok (), w) := need_name_ok.2 ⟨hn, rfl⟩
  have h2 : arg [u, state] 0 = u := rfl
  have h3 : arg [u, state] 1 = state := rfl
  have hid : (e.ok (.id u) && decide (u ∈ w.accounts)) = true := by
    rw [he.ok, decide_eq_true hu]
    rfl
  have hon : (exec e (.usermod (arg [u, state] 0) smbadmins) w).2 = w.join u smbadmins := by
    rw [exec_usermod]
    exact if_pos ⟨he.ok _, hu⟩
  have hoff : (exec e (.gpasswd (arg [u, state] 0) smbadmins) w).2 = w.leave u smbadmins := by
    rw [exec_gpasswd]
    exact if_pos (he.ok _)
  unfold user_admin
  rw [eval_bind, h1]
  simp only [h2, h3, ha, if_false, sh_bind, eval_call, exec_id, hid, if_true, eval_ite, die,
    eval_exit, pure_eq_ret, eval_ret, hon, hoff]

/-- `user-del` of a user that the panel does not protect. -/
theorem user_del_exec (he : Succeeds e) {u : Bytes} (hn : nameRe u = true) (hp : u ∉ PROTECTED_USERS)
    (w : World) : (∃ m, ((user_del [u]).eval (exec e) w).1 = .ok m) ∧
      u ∉ ((user_del [u]).eval (exec e) w).2.passdb := by
  have hacc := userDel_accepted he (c := ⟨.userDel, [u], []⟩) w rfl hn hp
  obtain ⟨m, w', h⟩ := Call.accepted_iff.1 hacc
  have h : (user_del [u]).eval (exec e) w = (.ok m, w') := h
  rw [h]
  refine ⟨⟨m, rfl⟩, ?_⟩
  obtain ⟨-, -, b, w₁, hb, rfl⟩ := user_del_ok h
  rw [accountDeleted_passdb]
  have hs : w₁.passdb = (smbDeleted e u w).passdb := by
    rcases share_del_block_ok.1 hb with ⟨-, -, -, -, rfl⟩ | ⟨-, -, rfl⟩
    · rfl
    · rfl
  rw [hs]
  exact notMem_smbDeleted he u w

/-- What a form of the user `u` does when it is sent as `ps` in the state `w`. -/
structure Does (u : Bytes) (f : Form) (ps : Fields) (w : World)
    (q : Option (Except Bytes Bytes) × World) : Prop where
  grant : f = grantForm u → Accepted q.1 ∧ (smbadmins, u) ∈ q.2.groups
  revoke : f = revokeForm u → Accepted q.1 ∧ (smbadmins, u) ∉ q.2.groups
  pass : f = passForm u →
    if value ps (bytes "pass") = [] ∨ 4 ≤ (value ps (bytes "pass")).length then
      Accepted q.1 ∧ q.2.passdb.lookup u = some (stored (value ps (bytes "pass")))
    else ¬ Accepted q.1 ∧ q.2 = w
  delete : f = deleteForm u →
    if (bytes "confirm", bytes "on") ∈ ps then Accepted q.1 ∧ u ∉ q.2.passdb
    else ¬ Accepted q.1 ∧ q.2 = w

theorem not_accepted_error (m : Bytes) : ¬ Accepted (some (.error m)) := by
  rintro ⟨m', h⟩
  cases h

theorem notMem_leave (w : World) (u g : Bytes) : (g, u) ∉ (w.leave u g).groups := by
  simp [World.leave]

theorem users_cgi_post (e : Env) (ps : Fields) (w : World) : users_cgi e (formPost ps) w =
    (some (users_post e (formPost ps) w).1, (users_post e (formPost ps) w).2) :=
  if_pos (show (formPost ps).method = POST from rfl)

theorem submits_plain {action n : Bytes} {ps : Fields}
    (h : Submits (actionForm action n []).controls ps) :
    ps = [(bytes "action", action), (bytes "name", n)] := by
  cases h with
  | hidden _ _ h =>
    cases h with
    | hidden _ _ h =>
      cases h
      rfl

theorem submits_text {action n box : Bytes} {ps : Fields}
    (h : Submits (actionForm action n [.text box]).controls ps) :
    ∃ v, (nl ∉ v ∧ 0 ∉ v) ∧ ps = [(bytes "action", action), (bytes "name", n), (box, v)] := by
  cases h with
  | hidden _ _ h =>
    cases h with
    | hidden _ _ h =>
      cases h with
      | text _ hv h =>
        cases h
        exact ⟨_, hv, rfl⟩

theorem grant_does (he : Succeeds e) {u : Bytes} (hn : nameRe u = true) (ha : u ≠ alpha)
    (hu : u ∈ w.accounts) {ps : Fields} (h : Submits (grantForm u).controls ps) :
    Accepted (users_cgi e (formPost ps) w).1 ∧
      (smbadmins, u) ∈ (users_cgi e (formPost ps) w).2.groups := by
  obtain rfl := submits_plain h
  obtain ⟨hact, hname⟩ := form_get (show nameRe (bytes "admon") = true by decide) hn [] (by simp)
  have hpost : users_post e (formPost [(bytes "action", bytes "admon"), (bytes "name", u)]) w =
      sudo_op e [bytes "user-admin", u, bytes "on"] [] w := by
    unfold users_post
    dsimp only
    rw [hact, hname, if_neg (by decide), if_neg (by decide), if_pos rfl]
  rw [users_cgi_post, hpost]
  have hcall : sudo_op e [bytes "user-admin", u, bytes "on"] [] w = _ :=
    user_admin_exec he hn ha hu
  rw [if_pos rfl] at hcall
  rw [hcall]
  exact ⟨⟨_, rfl⟩, mem_join.2 (.inr rfl)⟩

theorem revoke_does (he : Succeeds e) {u : Bytes} (hn : nameRe u = true) (ha : u ≠ alpha)
    (hu : u ∈ w.accounts) {ps : Fields} (h : Submits (revokeForm u).controls ps) :
    Accepted (users_cgi e (formPost ps) w).1 ∧
      (smbadmins, u) ∉ (users_cgi e (formPost ps) w).2.groups := by
  obtain rfl := submits_plain h
  obtain ⟨hact, hname⟩ := form_get (show nameRe (bytes "admoff") = true by decide) hn [] (by simp)
  have hpost : users_post e (formPost [(bytes "action", bytes "admoff"), (bytes "name", u)]) w =
      sudo_op e [bytes "user-admin", u, bytes "off"] [] w := by
    unfold users_post
    dsimp only
    rw [hact, hname, if_neg (by decide), if_neg (by decide), if_neg (by decide), if_pos rfl]
  rw [users_cgi_post, hpost]
  have hcall : sudo_op e [bytes "user-admin", u, bytes "off"] [] w = _ :=
    user_admin_exec he hn ha hu
  rw [if_neg (by decide), if_pos rfl] at hcall
  rw [hcall]
  exact ⟨⟨_, rfl⟩, notMem_leave w u smbadmins⟩

theorem delete_does (he : Succeeds e) {u : Bytes} (hn : nameRe u = true) (hp : u ∉ PROTECTED_USERS)
    {ps : Fields} (h : Submits (deleteForm u).controls ps) :
    if (bytes "confirm", bytes "on") ∈ ps then
      Accepted (users_cgi e (formPost ps) w).1 ∧ u ∉ (users_cgi e (formPost ps) w).2.passdb
    else ¬ Accepted (users_cgi e (formPost ps) w).1 ∧ (users_cgi e (formPost ps) w).2 = w := by
  obtain ⟨hact, hname, hconfirm⟩ := box_get (by decide) hn h
  have hpost : users_post e (formPost ps) w = if (bytes "confirm", bytes "on") ∈ ps then
      sudo_op e [bytes "user-del", u] [] w
      else (.error (bytes "tick the confirm box to delete"), w) := by
    unfold users_post
    dsimp only
    rw [hact, hname, if_neg (by decide), if_neg (by decide), if_neg (by decide),
      if_neg (by decide), if_pos rfl]
    simp only [hconfirm]
  split
  · rename_i hc
    rw [if_pos hc] at hpost
    rw [users_cgi_post, hpost]
    obtain ⟨⟨m, hm⟩, hno⟩ := user_del_exec he hn hp w
    exact ⟨⟨m, congrArg some hm⟩, hno⟩
  · rename_i hc
    rw [users_cgi_post, hpost, if_neg hc]
    exact ⟨not_accepted_error _, rfl⟩

theorem pass_does (he : Succeeds e) {u : Bytes} (hn : nameRe u = true) (hu : u ∈ w.passdb)
    {ps : Fields} (h : Submits (passForm u).controls ps) :
    if value ps (bytes "pass") = [] ∨ 4 ≤ (value ps (bytes "pass")).length then
      Accepted (users_cgi e (formPost ps) w).1 ∧
        (users_cgi e (formPost ps) w).2.passdb.lookup u = some (stored (value ps (bytes "pass")))
    else ¬ Accepted (users_cgi e (formPost ps) w).1 ∧ (users_cgi e (formPost ps) w).2 = w := by
  obtain ⟨v, hv, rfl⟩ := submits_text h
  have hps : PassForm [(bytes "action", bytes "pass"), (bytes "name", u), (bytes "pass", v)] u v := by
    refine ⟨?_, rfl, rfl, rfl⟩
    have ha' : isKey (bytes "action") := by decide
    have hn' : isKey (bytes "name") := by decide
    have hp' : isKey (bytes "pass") := by decide
    simp [ha', hn', hp']
  have hcall : (⟨.userPass, [u], passLine (subst v)⟩ : Call).exec e w = _ :=
    user_pass_eval hn hu (passLine (subst v))
  rw [readPass_passLine hv.2, firstLine_eq_iff.2 hv.1, he.ok, he.ok] at hcall
  rw [users_cgi_pass hps ⟨nameRe_nl hn, (name_kept hn).1⟩, hcall, hps.pass]
  by_cases hlen : v = [] ∨ 4 ≤ v.length
  · have hok : ¬ (v ≠ [] ∧ v.length < 4) := by
      rintro ⟨h1, h2⟩
      rcases hlen with h | h
      · exact h1 h
      · omega
    rw [if_pos hlen, if_neg hok, if_neg Bool.noConfusion, if_neg Bool.noConfusion]
    exact ⟨⟨_, rfl⟩, AList.lookup_insert _⟩
  · have hshort : v ≠ [] ∧ v.length < 4 := by
      rw [not_or] at hlen
      exact ⟨hlen.1, by omega⟩
    rw [if_neg hlen, if_pos hshort]
    exact ⟨not_accepted_error _, rfl⟩

/-- A form of a row posts the name of its user. -/
theorem userForms_name {u : Bytes} {admin : Bool} (hn : nameRe u = true) {f : Form}
    (hf : f ∈ userForms u admin) {ps : Fields} (h : Submits f.controls ps) :
    (formPost ps).get "name" = u := by
  have hgrant : ∀ {action : Bytes}, nameRe action = true →
      Submits (actionForm action u []).controls ps → (formPost ps).get "name" = u := by
    intro action ha h
    obtain rfl := submits_plain h
    exact (form_get ha hn [] (by simp)).2
  have hpass : Submits (passForm u).controls ps → (formPost ps).get "name" = u := by
    intro h
    obtain ⟨v, -, rfl⟩ := submits_text h
    have hkey : isKey (bytes "pass") := by decide
    exact (form_get (by decide) hn _ (by simpa using hkey)).2
  rw [userForms] at hf
  split at hf
  · obtain rfl := List.mem_singleton.1 hf
    exact hpass h
  · simp only [List.mem_cons, List.not_mem_nil, or_false] at hf
    rcases hf with rfl | rfl | rfl
    · split at h
      · exact hgrant (by decide) h
      · exact hgrant (by decide) h
    · exact hpass h
    · exact (box_get (by decide) hn h).2.1

/-- The user `alpha` has no button but the one for the password. -/
theorem userForms_alpha {u : Bytes} {admin : Bool} {f : Form} (hf : f ∈ userForms u admin)
    (hp : f ≠ passForm u) : u ≠ alpha := by
  rintro rfl
  rw [userForms, if_pos rfl, List.mem_singleton] at hf
  exact hp hf

/-- **A button of a user, on a page that is older than the state it is pressed in: it does what it
says if the user is still there, and changes no other user.** -/
theorem user_button (base : Base) {cs cs' : List (Env × Call)}
    (hcs : ∀ p ∈ cs, Succeeds p.1) (hcs' : ∀ p ∈ cs', Succeeds p.1) {e e' : Env} (he : Succeeds e)
    (he' : Succeeds e') (r : Request) {f : Form} {ps : Fields} :
    let p := users_page e r (runCalls (stage3World base) cs)
    let w := runCalls p.2 cs'
    let q := users_cgi e' (formPost ps) w
    f ∈ forms (document p.1) → f ≠ addUserForm → Submits f.controls ps →
    ∃ a ∈ accounts p.2, f ∈ userForms a.1 a.2 ∧ (∀ v ≠ a.1, q.2.view v = w.view v) ∧
      (a.1 ∈ w.passdb → Does a.1 f ps w q) := by
  intro p w q hf hne hps
  have hp := granted_users_cgi he r (granted_run hcs (granted_stage3 base))
  have hlp := listed_users_cgi he r (listed_run hcs (listed_stage3 base))
  have hw : Granted w := granted_run hcs' hp
  have hlw : Listed w := listed_run hcs' hlp
  rw [(users_page_granted he r hp).1, List.mem_append, List.mem_singleton] at hf
  obtain ⟨a, ha, hfa⟩ := List.mem_flatMap.1 (hf.resolve_right hne)
  obtain ⟨u, hu, rfl⟩ := List.mem_map.1 ha
  dsimp only at hfa ⊢
  have hmem : u ∈ p.2.passdb := AList.mem_keys.1 hu
  have hn : nameRe u = true := by
    rcases hp.members.passdb u hmem with rfl | hu
    · decide
    · exact hu.1
  have hcall : q.2 = w ∨ ∃ c : Call, c.name = u ∧ q.2 = (c.exec e' w).2 := by
    rw [← userForms_name hn hfa hps]
    exact users_cgi_calls e' (formPost ps) w
  refine ⟨_, ha, hfa, fun v hv => ?_, fun hthere => ?_⟩
  · rcases hcall with hq | ⟨c, rfl, hq⟩
    · rw [hq]
    · rw [hq, view_exec e' w hv]
  · have hacc : u ∈ w.accounts := (hlw u hthere).1
    refine ⟨?_, ?_, ?_, ?_⟩
    · rintro rfl
      exact grant_does he' hn (userForms_alpha hfa (by simp [grantForm, passForm, actionForm])) hacc hps
    · rintro rfl
      exact revoke_does he' hn (userForms_alpha hfa (by simp [revokeForm, passForm, actionForm])) hacc
        hps
    · rintro rfl
      exact pass_does he' hn hthere hps
    · rintro rfl
      have ha := userForms_alpha hfa (by simp [deleteForm, passForm, actionForm])
      exact delete_does he' hn ((hlp u hmem).2.resolve_left ha) hps

/-- bob, added with a password and made an admin by the button. -/
theorem user_button_bob :
    let w := runCalls (stage3World ∅)
      [(allOk, ⟨.userAdd, [bytes "bob", bytes "noshare"], bytes "secret\n"⟩)]
    let p := users_page allOk ⟨[], none, []⟩ w
    let q := users_cgi allOk
      (formPost [(bytes "action", bytes "admon"), (bytes "name", bytes "bob")]) p.2
    grantForm (bytes "bob") ∈ forms (document p.1) ∧ Accepted q.1 ∧
      (smbadmins, bytes "bob") ∈ q.2.groups := by
  intro w p q
  have hcs : ∀ c ∈ [(allOk, (⟨.userAdd, [bytes "bob", bytes "noshare"], bytes "secret\n"⟩ : Call))],
      Succeeds c.1 := by simp [succeeds_allOk]
  have hnone : ∀ c ∈ ([] : List (Env × Call)), Succeeds c.1 := by simp
  have hw : Granted w := granted_run hcs (granted_stage3 ∅)
  have hf : grantForm (bytes "bob") ∈ forms (document p.1) := by
    rw [(users_page_granted succeeds_allOk _ (granted_users_cgi succeeds_allOk _ hw)).1]
    refine List.mem_append_left _ (List.mem_flatMap.2 ⟨(bytes "bob", false), ?_, ?_⟩)
    · decide +kernel
    · decide
  obtain ⟨⟨u, admin⟩, -, hfa, -, h⟩ := user_button ∅ hcs hnone succeeds_allOk succeeds_allOk _ hf
    (by decide) (.hidden _ _ (.hidden _ _ .nil))
  have hb : bytes "bob" = u := by
    unfold userForms at hfa
    split at hfa
    · cases List.mem_singleton.1 hfa
    · cases admin
      · simpa [grantForm, passForm, deleteForm, actionForm] using hfa
      · simp [grantForm, revokeForm, passForm, deleteForm, actionForm] at hfa
        exact hfa.2
  subst hb
  have hthere : bytes "bob" ∈ (runCalls p.2 []).passdb := by decide +kernel
  exact ⟨hf, (h hthere).grant rfl⟩

end Cgi
