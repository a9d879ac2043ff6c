import MyCloud.Cgi.Proof.Buttons
import MyCloud.Panel.Proof.Temporary

/-!
# What the forms "Add" do

The two forms at the end of the pages, filled in with any texts.

* `share_add_exec`, `user_add_exec`: the two verbs when their commands succeed.
* `tableRows_add`: the table after a share is added.
* `add_share_form`: **a share is added iff its fields are fine, and shown with what its type says.**
* `add_user_form`: **a user is added iff its fields are fine, with the typed password, and with a private
  share if it is asked for.**
-/

set_option autoImplicit false

namespace Cgi

open Shell Panel Script Html

variable {e : Env} {w : World}

/-! ## The verbs -/

/-- What `share-add` asks for. -/
structure ShareFits (n o : Bytes) (typ : ShareType) (w : World) : Prop where
  name : nameRe n = true
  fresh : hasHeader n w.smb = false
  owner : typ = .priv → nameRe o = true ∧ o ∈ w.accounts

theorem share_add_run (he : Succeeds e) {n o t : Bytes} {typ : ShareType} (ht0 : t ≠ [])
    (ht : ShareType.ofArg t = some typ) (h : ShareFits n o typ w) :
    ∃ m w', (share_add [n, t, o]).eval (exec e) w = (.ok m, w') := by
  have hgrep : exec e (.grepHeader .verb (arg [n, t, o] 0)) w = (false, w) := by
    have hfresh : hasHeader (arg [n, t, o] 0) w.smb = false := h.fresh
    rw [exec_grepHeader, hfresh, Bool.and_false]
  have htyp : ShareType.ofArg (argOr [n, t, o] 1 (bytes "family")) = some typ := by
    have hor : argOr [n, t, o] 1 (bytes "family") = t := if_neg ht0
    rw [hor, ht]
  have hblock : ∀ w, (share_add_block n typ o).eval (exec e) w =
      (.ok (), { w with smb := addConf e n typ o w.smb }) := fun w => by
    rw [share_add_block_eval, if_pos (he.ok _), if_pos (he.ok _)]
  have hmade : ∀ owner mode msg, ∃ m w', (do
      share_dir owner mode n
      share_add_block n typ o
      return msg : Op Bytes).eval (exec e) w = (.ok m, w') := fun owner mode msg =>
    ⟨msg, _, eval_bind_ok.2 ⟨(), _, share_dir_ok.2 rfl, eval_bind_ok.2 ⟨(), _, hblock _, rfl⟩⟩⟩
  have hneed : (need_name (arg [n, t, o] 0)).eval (exec e) w = (.ok (), w) :=
    need_name_ok.2 ⟨h.name, rfl⟩
  have h0 : arg [n, t, o] 0 = n := rfl
  have h2 : arg [n, t, o] 2 = o := rfl
  unfold share_add
  rw [eval_bind, hneed]
  simp only [sh_bind, eval_call, h0, h2, hgrep, htyp, Bool.false_eq_true, if_false]
  cases typ with
  | priv =>
    obtain ⟨ho, hacc⟩ := h.owner rfl
    have hid : exec e (.id (arg [n, t, o] 2)) w = (true, w) := by
      have hacc : arg [n, t, o] 2 ∈ w.accounts := hacc
      rw [exec_id, he.ok, decide_eq_true hacc]
      rfl
    have hown : (need_name o).eval (exec e) w = (.ok (), w) := need_name_ok.2 ⟨ho, rfl⟩
    dsimp only
    rw [eval_bind, hown]
    simp only [eval_call, hid, if_true]
    exact hmade ..
  | family => exact hmade ..
  | guest => exact hmade ..

/-- **`share-add` adds the section iff name, type and owner are fine, and else changes nothing.** -/
theorem share_add_exec (he : Succeeds e) {n o t : Bytes} {typ : ShareType} (ht0 : t ≠ [])
    (ht : ShareType.ofArg t = some typ) (w : World) :
    let q := (share_add [n, t, o]).eval (exec e) w
    (Accepted (some q.1) ↔ ShareFits n o typ w) ∧
      (ShareFits n o typ w → q.2.smb = w.smb ++ shareBlock n typ o) ∧
      (¬ ShareFits n o typ w → q.2 = w) := by
  intro q
  have htyp : ShareType.ofArg (argOr [n, t, o] 1 (bytes "family")) = some typ := by
    have hor : argOr [n, t, o] 1 (bytes "family") = t := if_neg ht0
    rw [hor, ht]
  rcases hq : q with ⟨m | m, w'⟩
  · have hfits : ¬ ShareFits n o typ w := fun h => by
      obtain ⟨m', w', h⟩ := share_add_run he ht0 ht h
      exact nomatch hq.symm.trans h
    refine ⟨iff_of_false (not_accepted_error m) hfits, fun h => absurd h hfits, fun _ => ?_⟩
    rcases share_add_err hq with h | ⟨-, k, hk⟩
    · exact h
    · rw [he.ok] at hk
      cases hk
  · obtain ⟨hn, hg, typ', o', mode, ht', ho, rfl, -⟩ := share_add_ok hq
    obtain rfl := Option.some.inj (htyp.symm.trans ht')
    rw [he.greps] at hg
    have hfits : ShareFits n o typ w := ⟨hn, hg, ho⟩
    refine ⟨iff_of_true ⟨m, rfl⟩ hfits, fun _ => ?_, fun h => absurd hfits h⟩
    exact he.copies.addConf n typ o w.smb

/-! ## The form "Add share" -/

theorem submits_addShare {ps : Fields} (h : Submits addShareForm.controls ps) :
    ∃ n t o, (nl ∉ n ∧ 0 ∉ n) ∧ t ∈ ["family", "private", "guest"].map bytes ∧ (nl ∉ o ∧ 0 ∉ o) ∧
      ps = [(bytes "action", bytes "add"), (bytes "name", n), (bytes "type", t),
        (bytes "owner", o)] := by
  cases h with
  | hidden _ _ h =>
    cases h with
    | text _ hn h =>
      cases h with
      | select _ ht h =>
        cases h with
        | text _ ho h =>
          cases h
          exact ⟨_, _, _, hn, ht, ho, rfl⟩

/-- **An added share is the last row, with what its type says; a section `[global]` is not shown.** -/
theorem tableRows_add (he : Succeeds e) (h : KnownConf w.smb) {n o : Bytes} {typ : ShareType}
    (hn : nameRe n = true) (hh : hasHeader n w.smb = false) (ho : typ = .priv → nameRe o = true)
    {w' : World} (hw' : w'.smb = w.smb ++ shareBlock n typ o) :
    tableRows e (bytes "share-list") w' = tableRows e (bytes "share-list") w ++
      [(n, typ.description o)].filter (·.1 ≠ bytes "global") := by
  have hconf : KnownConf w'.smb := hw' ▸ h.add hn ho hh
  rw [tableRows_eq he hconf, tableRows_eq he h, hw',
    sections_add _ (nameRe_nl hn) fun hp => nameRe_nl (ho hp), List.flatMap_append,
    List.flatMap_singleton]
  congr 1
  by_cases hg : n = bytes "global"
  · rw [sectionRow_global hn hg ho, List.filter_cons_of_neg (by simpa using hg)]
    rfl
  · have htab := (description_tidy ho).1
    rw [sectionRow_share hn hg ho, List.map_singleton,
      splitRow_line ⟨nameRe_ne_nil hn, nameRe_tab hn⟩ htab,
      List.filter_cons_of_pos (by simpa using hg), List.filter_nil]

theorem shares_cgi_add {n t o : Bytes} (hn : nl ∉ n ∧ 0 ∉ n)
    (ht : t ∈ ["family", "private", "guest"].map bytes) (ho : nl ∉ o ∧ 0 ∉ o) (e : Env) (w : World) :
    shares_cgi e (formPost [(bytes "action", bytes "add"), (bytes "name", n), (bytes "type", t),
      (bytes "owner", o)]) w =
      (some ((share_add [n, t, o]).eval (exec e) w).1, ((share_add [n, t, o]).eval (exec e) w).2) := by
  set ps := [(bytes "action", bytes "add"), (bytes "name", n), (bytes "type", t), (bytes "owner", o)]
    with hps
  have hkeys : ∀ p ∈ ps, isKey p.1 := by
    have ha' : isKey (bytes "action") := by decide
    have hn' : isKey (bytes "name") := by decide
    have ht' : isKey (bytes "type") := by decide
    have ho' : isKey (bytes "owner") := by decide
    simp [hps, ha', hn', ht', ho']
  have hlast : ∀ {v : Bytes}, nl ∉ v → v.getLast? ≠ some nl := fun h hl =>
    h (List.mem_of_getLast? hl)
  have htype : nl ∉ t ∧ 0 ∉ t := by
    have hall : ∀ t ∈ ["family", "private", "guest"].map bytes, nl ∉ t ∧ 0 ∉ t := by decide
    exact hall t ht
  have hact : (formPost ps).get "action" = bytes "add" :=
    field_value hkeys (by decide) rfl (by decide) (by decide)
  have hname : (formPost ps).get "name" = n :=
    field_value hkeys (by decide) rfl hn.2 (hlast hn.1)
  have htyp : (formPost ps).get "type" = t :=
    field_value hkeys (by decide) rfl htype.2 (hlast htype.1)
  have hown : (formPost ps).get "owner" = o :=
    field_value hkeys (by decide) rfl ho.2 (hlast ho.1)
  have hmethod : (formPost ps).method = POST := rfl
  have hargv : Call.ofArgv [bytes "share-add", n, t, o] [] = ⟨.shareAdd, [n, t, o], []⟩ := rfl
  simp only [shares_cgi, if_pos hmethod, shares_post, hact, if_true, hname, htyp, hown, sudo_op, hargv]
  rfl

/-- **The form "Add share", filled in with any name and owner: it is accepted iff the name is fine and
free and, for a private share, the owner is there; then the table of shares has one row more, with what
the type says, and else nothing has changed.** A section `global` has no row. -/
theorem add_share_form (base : Base) {cs : List (Env × Call)}
    (hcs : ∀ p ∈ cs, Succeeds p.1) {e e' : Env} (he : Succeeds e) (he' : Succeeds e') {ps : Fields}
    (hps : Submits addShareForm.controls ps) :
    let w := runCalls (stage3World base) cs
    let q := shares_cgi e (formPost ps) w
    let n := value ps (bytes "name")
    let o := value ps (bytes "owner")
    ∃ typ, ShareType.ofArg (value ps (bytes "type")) = some typ ∧
      (Accepted q.1 ↔ ShareFits n o typ w) ∧
      (Accepted q.1 → tableRows e' (bytes "share-list") q.2 = tableRows e' (bytes "share-list") w ++
        [(n, typ.description o)].filter (·.1 ≠ bytes "global")) ∧
      (¬ Accepted q.1 → q.2 = w) := by
  intro w q n o
  have hw : Granted w := granted_run hcs (granted_stage3 base)
  obtain ⟨n', t, o', hn, ht, ho, rfl⟩ := submits_addShare hps
  have hq : q = _ := shares_cgi_add hn ht ho e w
  have htypes : ∀ t ∈ ["family", "private", "guest"].map bytes,
      t ≠ [] ∧ (ShareType.ofArg t).isSome = true := by decide
  obtain ⟨ht0, htyp⟩ := htypes t ht
  obtain ⟨typ, htyp⟩ := Option.isSome_iff_exists.1 htyp
  obtain ⟨hacc, hadd, hno⟩ := share_add_exec he (n := n') (o := o') ht0 htyp w
  refine ⟨typ, htyp, ?_⟩
  rw [hq]
  refine ⟨hacc, fun h => ?_, fun h => hno fun hf => h (hacc.2 hf)⟩
  have hf := hacc.1 h
  exact tableRows_add he' hw.conf hf.name hf.fresh (fun hp => (hf.owner hp).1) (hadd hf)

/-- bob is not there yet, so he gets no private share; a guest share he gets. -/
theorem add_share_form_media :
    let post := fun t => shares_cgi allOk (formPost [(bytes "action", bytes "add"),
      (bytes "name", bytes "media"), (bytes "type", bytes t), (bytes "owner", bytes "bob")])
      (stage3World ∅)
    ¬ Accepted (post "private").1 ∧
      tableRows allOk (bytes "share-list") (post "guest").2 =
        tableRows allOk (bytes "share-list") (stage3World ∅) ++
          [(bytes "media", bytes "anyone on the network (guest, no password)")] := by
  intro post
  have hnone : ∀ c ∈ ([] : List (Env × Call)), Succeeds c.1 := by simp
  have hs : ∀ t ∈ ["family", "private", "guest"].map bytes, Submits addShareForm.controls
      [(bytes "action", bytes "add"), (bytes "name", bytes "media"), (bytes "type", t),
        (bytes "owner", bytes "bob")] := fun t ht =>
    .hidden _ _ (.text _ (by decide) (.select _ ht (.text _ (by decide) .nil)))
  constructor
  · obtain ⟨typ, ht, hacc, -, -⟩ := add_share_form ∅ hnone succeeds_allOk succeeds_allOk
      (hs (bytes "private") (by decide))
    have htyp : typ = .priv := Option.some.inj (ht.symm.trans (by decide))
    intro h
    exact absurd ((hacc.1 h).owner htyp).2 (by decide)
  · obtain ⟨typ, ht, hacc, hrows, -⟩ := add_share_form ∅ hnone succeeds_allOk succeeds_allOk
      (hs (bytes "guest") (by decide))
    have htyp : typ = .guest := Option.some.inj (ht.symm.trans (by decide))
    subst htyp
    exact hrows (hacc.2 ⟨by decide, by decide +kernel, nofun⟩)

/-! ## The form "Add user" -/

theorem user_add_run (he : Succeeds e) {args : List Bytes} {stdin : Bytes} (h : Checked args stdin)
    (w : World) : ∃ m w', (user_add args stdin).eval (exec e) w = (.ok m, w') := by
  set u := arg args 0 with hu
  set pass := readPass stdin with hpass
  have hready : (e.ok (.id u) = true ∧ u ∈ w.accounts) ∨
      (e.ok (.adduser u) = true ∧ u ∉ w.accounts) :=
    (em (u ∈ w.accounts)).imp (fun h => ⟨he.ok _, h⟩) fun h => ⟨he.ok _, h⟩
  have haccount := (user_add_account_eval (e := e) (w := w) u).trans (if_pos hready)
  have hpassword : ∀ w, (user_add_password u pass).eval (exec e) w = (.ok (), passwordWorld u pass w) := by
    intro w
    rw [user_add_password_eval (nl_notMem_readPass stdin)]
    split
    · rw [if_pos (he.ok _)]
    · rw [if_pos (he.ok _), if_pos (he.ok _)]
  have hshare : ∀ w, ∃ w', (user_add_share u (argOr args 1 (bytes "share"))).eval (exec e) w =
      (.ok (), w') := by
    intro w
    rw [user_add_share_eval]
    split
    · rw [share_add_block_eval, if_pos (he.ok _), if_pos (he.ok _)]
      exact ⟨_, rfl⟩
    · exact ⟨w, rfl⟩
  obtain ⟨w', hw'⟩ := hshare (passwordWorld u pass (joined e u w))
  have hrest : ∃ m, (user_add_rest u (argOr args 1 (bytes "share")) pass).eval (exec e)
      (passwordWorld u pass (joined e u w)) = (.ok m, w') := by
    unfold user_add_rest
    rw [eval_bind, hw']
    dsimp only
    split
    · exact ⟨_, rfl⟩
    · exact ⟨_, rfl⟩
  obtain ⟨m, hm⟩ := hrest
  refine ⟨m, w', ?_⟩
  rw [user_add_eq h]
  exact eval_bind_ok.2 ⟨(), _, haccount, eval_bind_ok.2 ⟨(), _, hpassword _, hm⟩⟩

/-- **`user-add` adds the user iff name and password are fine, and else changes nothing.** -/
theorem user_add_exec (he : Succeeds e) (u ws stdin : Bytes) (w : World) :
    let q := (user_add [u, ws] stdin).eval (exec e) w
    let asked := argOr [u, ws] 1 (bytes "share") = bytes "share" ∧ hasHeader u w.smb = false
    (Accepted (some q.1) ↔ Checked [u, ws] stdin) ∧
      (Checked [u, ws] stdin → u ∈ q.2.accounts ∧ (users, u) ∈ q.2.groups ∧
        q.2.passdb.lookup u = some (stored (readPass stdin)) ∧
        (asked → q.2.smb = w.smb ++ shareBlock u .priv u) ∧ (¬ asked → q.2.smb = w.smb)) ∧
      (¬ Checked [u, ws] stdin → q.2 = w) := by
  intro q asked
  rcases hq : q with ⟨m | m, w'⟩
  · have hno : ¬ Checked [u, ws] stdin := fun h => by
      obtain ⟨m', w', h⟩ := user_add_run he h w
      cases hq.symm.trans h
    refine ⟨iff_of_false (not_accepted_error m) hno, fun h => absurd h hno, fun _ => ?_⟩
    rcases user_add_err hq with h | ⟨-, -, ⟨k, hk⟩, -⟩
    · exact h
    · rw [he.ok] at hk
      cases hk
  · obtain ⟨hn, hp, hacc, hshare⟩ := user_add_ok hq
    have hlong : ¬ (readPass stdin ≠ [] ∧ (readPass stdin).length < 4) := fun hs => by
      have herr : q = (.error (bytes "password too short (min 4 chars, or blank for none)"), w) := by
        show (user_add [u, ws] stdin).eval (exec e) w = _
        unfold user_add need_name
        simp [hn, hs, die]
      cases hq.symm.trans herr
    have hc : Checked [u, ws] stdin := ⟨hn, hlong, hp⟩
    refine ⟨iff_of_true ⟨m, rfl⟩ hc, fun _ => ?_, fun h => absurd hc h⟩
    have h0 : arg [u, ws] 0 = u := rfl
    rw [h0] at hacc hshare
    set v := userWorld e u (readPass stdin) w with hv
    have hstores : w'.stores = v.stores ∧ (asked → w'.smb = w.smb ++ shareBlock u .priv u) ∧
        (¬ asked → w'.smb = w.smb) := by
      rw [user_add_share_eval, he.greps, hv, userWorld_smb] at hshare
      by_cases ha : asked
      · rw [if_pos ha, share_add_block_eval, if_pos (he.ok _), if_pos (he.ok _),
          he.copies.addConf] at hshare
        cases hshare
        exact ⟨shareDir_stores .., fun _ => by rw [shareDir_smb, userWorld_smb], fun h => absurd ha h⟩
      · rw [if_neg ha] at hshare
        cases hshare
        exact ⟨rfl, fun h => absurd h ha, fun _ => userWorld_smb ..⟩
    obtain ⟨hs, hasked, hplain⟩ := hstores
    refine ⟨?_, ?_, ?_, hasked, hplain⟩
    · rw [stores_accounts hs, hv, userWorld, passwordWorld_eq, World.setPassword, joined_accounts]
      exact hacc
    · rw [stores_groups hs, hv, userWorld, passwordWorld_eq, World.setPassword]
      exact mem_joined.2 (.inr ⟨he.ok _, rfl⟩)
    · rw [stores_passdb hs, hv, userWorld, passwordWorld_eq]
      exact AList.lookup_insert _

theorem submits_addUser {ps : Fields} (h : Submits addUserForm.controls ps) :
    ∃ n v, (nl ∉ n ∧ 0 ∉ n) ∧ (nl ∉ v ∧ 0 ∉ v) ∧
      (ps = [(bytes "action", bytes "add"), (bytes "name", n), (bytes "pass", v),
        (bytes "withshare", bytes "on")] ∨
       ps = [(bytes "action", bytes "add"), (bytes "name", n), (bytes "pass", v)]) := by
  cases h with
  | hidden _ _ h =>
    cases h with
    | text _ hn h =>
      cases h with
      | text _ hv h =>
        cases h with
        | ticked _ h =>
          cases h
          exact ⟨_, _, hn, hv, .inl rfl⟩
        | unticked _ h =>
          cases h
          exact ⟨_, _, hn, hv, .inr rfl⟩

/-- What `users.cgi` does with the form. -/
theorem users_cgi_add {ps : Fields} (h : Submits addUserForm.controls ps) (e : Env) (w : World) :
    ∃ ws stdin, readPass stdin = value ps (bytes "pass") ∧
      (argOr [value ps (bytes "name"), ws] 1 (bytes "share") = bytes "share" ↔
        (bytes "withshare", bytes "on") ∈ ps) ∧
      users_cgi e (formPost ps) w =
        (some ((user_add [value ps (bytes "name"), ws] stdin).eval (exec e) w).1,
          ((user_add [value ps (bytes "name"), ws] stdin).eval (exec e) w).2) := by
  obtain ⟨n, v, hn, hv, hps⟩ := submits_addUser h
  have hlast : ∀ {v : Bytes}, nl ∉ v → v.getLast? ≠ some nl := fun h hl =>
    h (List.mem_of_getLast? hl)
  have hkeys : ∀ p ∈ ps, isKey p.1 := by
    have ha' : isKey (bytes "action") := by decide
    have hn' : isKey (bytes "name") := by decide
    have hp' : isKey (bytes "pass") := by decide
    have hw' : isKey (bytes "withshare") := by decide
    rcases hps with rfl | rfl
    · simp [ha', hn', hp', hw']
    · simp [ha', hn', hp']
  have hvalues : value ps (bytes "action") = bytes "add" ∧ value ps (bytes "name") = n ∧
      value ps (bytes "pass") = v := by
    rcases hps with rfl | rfl
    · exact ⟨rfl, rfl, rfl⟩
    · exact ⟨rfl, rfl, rfl⟩
  obtain ⟨hva, hvn, hvp⟩ := hvalues
  have hact : (formPost ps).get "action" = bytes "add" :=
    field_value hkeys (by decide) hva (by decide) (by decide)
  have hname : (formPost ps).get "name" = n := field_value hkeys (by decide) hvn hn.2 (hlast hn.1)
  have hpass : (formPost ps).get "pass" = subst v := by
    rw [Request.get, field_post (by decide) hkeys, hvp]
  have hbox : (formPost ps).get "withshare" = bytes "on" ↔ (bytes "withshare", bytes "on") ∈ ps := by
    rcases hps with rfl | rfl
    · exact iff_of_true (field_value hkeys (by decide) rfl (by decide) (by decide)) (by simp)
    · refine iff_of_false (fun hb => ?_) ?_
      · rw [field_value hkeys (by decide) (show _ = [] from rfl) (by decide) (by decide)] at hb
        exact absurd hb (by decide)
      · have h1 : bytes "withshare" ≠ bytes "action" := by decide
        have h2 : bytes "withshare" ≠ bytes "name" := by decide
        have h3 : bytes "withshare" ≠ bytes "pass" := by decide
        simp [h1, h2, h3]
  have hmethod : (formPost ps).method = POST := rfl
  have hargv : ∀ ws stdin, Call.ofArgv [bytes "user-add", n, ws] stdin =
      ⟨.userAdd, [n, ws], stdin⟩ := fun _ _ => rfl
  have hread : readPass (passLine (subst v)) = v := by
    rw [readPass_passLine hv.2, firstLine_eq_iff.2 hv.1]
  rw [hvn, hvp]
  refine ⟨if (formPost ps).get "withshare" = bytes "on" then bytes "share" else bytes "noshare",
    passLine (subst v), hread, ?_, ?_⟩
  · rw [← hbox]
    split
    · rename_i hb
      exact iff_of_true rfl hb
    · rename_i hb
      have hno : argOr [n, bytes "noshare"] 1 (bytes "share") = bytes "noshare" := rfl
      exact iff_of_false (by rw [hno]; decide) hb
  · simp only [users_cgi, if_pos hmethod, users_post, hact, if_true, hname, hpass, sudo_op, hargv]
    rfl

/-- **The form "Add user", filled in with any name and password: it is accepted iff the name is fine and
not protected and the password is blank or of at least four octets; then the user is there with that
password and may use the shares of all, and, if the box is ticked and no share has the name, the table of
shares has one row more; and else nothing has changed. No other user changes.** A section `global` has
no row. -/
theorem add_user_form (base : Base) {cs : List (Env × Call)}
    (hcs : ∀ p ∈ cs, Succeeds p.1) {e e' : Env} (he : Succeeds e) (he' : Succeeds e') {ps : Fields}
    (hps : Submits addUserForm.controls ps) :
    let w := runCalls (stage3World base) cs
    let q := users_cgi e (formPost ps) w
    let n := value ps (bytes "name")
    let v := value ps (bytes "pass")
    (Accepted q.1 ↔ nameRe n = true ∧ n ∉ PROTECTED_USERS ∧ (v = [] ∨ 4 ≤ v.length)) ∧
      (Accepted q.1 → n ∈ q.2.accounts ∧ (users, n) ∈ q.2.groups ∧
        q.2.passdb.lookup n = some (stored v) ∧
        tableRows e' (bytes "share-list") q.2 = tableRows e' (bytes "share-list") w ++
          if (bytes "withshare", bytes "on") ∈ ps ∧ hasHeader n w.smb = false then
            [(n, ShareType.description .priv n)].filter (·.1 ≠ bytes "global") else []) ∧
      (¬ Accepted q.1 → q.2 = w) ∧ ∀ u ≠ n, q.2.view u = w.view u := by
  intro w q n v
  have hw : Granted w := granted_run hcs (granted_stage3 base)
  obtain ⟨ws, stdin, hread, hask, hq⟩ := users_cgi_add hps e w
  have hq : q = _ := hq
  obtain ⟨hacc, hadd, hno⟩ := user_add_exec he n ws stdin w
  have hview : ∀ u ≠ n, q.2.view u = w.view u := fun u hu => by
    rw [hq]
    exact view_exec (c := ⟨.userAdd, [n, ws], stdin⟩) e w hu
  have hchecked : Checked [n, ws] stdin ↔
      nameRe n = true ∧ n ∉ PROTECTED_USERS ∧ (v = [] ∨ 4 ≤ v.length) := by
    have hlen : ¬ (v ≠ [] ∧ v.length < 4) ↔ v = [] ∨ 4 ≤ v.length := by
      rw [not_and_or, not_not, Nat.not_lt]
    rw [Checked, hread, hlen]
    exact and_congr_right fun _ => and_comm
  rw [hq] at hview ⊢
  refine ⟨hacc.trans hchecked, fun h => ?_, fun h => hno fun hc => h (hacc.2 hc), hview⟩
  obtain ⟨h1, h2, h3, hasked, hplain⟩ := hadd (hacc.1 h)
  rw [hread] at h3
  refine ⟨h1, h2, h3, ?_⟩
  have hn : nameRe n = true := (hchecked.1 (hacc.1 h)).1
  split
  · rename_i hyes
    exact tableRows_add he' hw.conf hn hyes.2 (fun _ => hn) (hasked ⟨hask.2 hyes.1, hyes.2⟩)
  · rename_i hnot
    rw [List.append_nil, tableRows_shares he', tableRows_shares he',
      hplain fun h => hnot ⟨hask.1 h.1, h.2⟩]

/-- bob, added without a password and with a private share. -/
theorem add_user_form_bob :
    let q := users_cgi allOk (formPost [(bytes "action", bytes "add"), (bytes "name", bytes "bob"),
      (bytes "pass", []), (bytes "withshare", bytes "on")]) (stage3World ∅)
    q.2.passdb.lookup (bytes "bob") = some none ∧
      tableRows allOk (bytes "share-list") q.2 = tableRows allOk (bytes "share-list") (stage3World ∅) ++
        [(bytes "bob", bytes "bob + admins")] := by
  intro q
  have hnone : ∀ c ∈ ([] : List (Env × Call)), Succeeds c.1 := by simp
  have hs : Submits addUserForm.controls [(bytes "action", bytes "add"), (bytes "name", bytes "bob"),
      (bytes "pass", []), (bytes "withshare", bytes "on")] :=
    .hidden _ _ (.text _ (by decide) (.text _ (by decide) (.ticked _ .nil)))
  obtain ⟨hacc, hadd, -, -⟩ := add_user_form ∅ hnone succeeds_allOk succeeds_allOk hs
  obtain ⟨-, -, hpass, hrows⟩ := hadd (hacc.2 (by decide))
  have hbox : (bytes "withshare", bytes "on") ∈ [(bytes "action", bytes "add"),
      (bytes "name", bytes "bob"), (bytes "pass", []), (bytes "withshare", bytes "on")] ∧
      hasHeader (bytes "bob") (stage3World ∅).smb = false := ⟨by simp, by decide +kernel⟩
  refine ⟨hpass, hrows.trans ?_⟩
  rw [if_pos (by exact hbox)]
  rfl

end Cgi
