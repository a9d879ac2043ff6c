import MyCloud.Panel.Proof.Change

/-!
# Removing a share

* `share_del_eval`: `share-del` of a valid name as one equation.
* `share_del_exact_iff`: on any smb.conf, edited by hand or not, an acknowledged `share-del n`
  removes the sections named `n` and no others iff at each header line the name is `n` just when
  the last header at column 0 is the line `[n]`.
* `share_del_undoes_iff`: `share-del` undoes a `share-add` of every name but the protected ones.
-/

set_option autoImplicit false

namespace Panel

open Shell Script

variable {e : Env} {w w' : World} {args : List Bytes} {stdin m n t : Bytes}

/-- `share-del` of a valid name that is not protected. -/
theorem share_del_eval (args : List Bytes) (hn : nameRe (arg args 0) = true)
    (hp : arg args 0 ∉ PROTECTED_SHARES) :
    (share_del args).eval (exec e) w =
      if e.greps .verb (arg args 0) w.smb then
        match (share_del_block (arg args 0)).eval (exec e) w with
        | (.ok _, w') =>
          (.ok (bytes "OK: share " ++ arg args 0 ++ bytes " removed (directory and files kept)"), w')
        | (.error m, w') => (.error m, w')
      else (.error (bytes "no such share"), w) := by
  have h1 : (need_name (arg args 0)).eval (exec e) w = (.ok (), w) := need_name_ok.2 ⟨hn, rfl⟩
  unfold share_del
  rw [eval_bind, h1]
  simp only [hp, if_false, sh_bind, eval_call, exec_grepHeader, eval_ite, eval_bind, Env.greps, die,
    eval_exit, pure_eq_ret, eval_ret]
  rcases (share_del_block (arg args 0)).eval (exec e) w with ⟨_ | _, _⟩ <;> rfl

theorem share_del_protected (args : List Bytes) (hn : nameRe (arg args 0) = true)
    (hp : arg args 0 ∈ PROTECTED_SHARES) :
    (share_del args).eval (exec e) w = (.error (bytes "protected share"), w) := by
  have h1 : (need_name (arg args 0)).eval (exec e) w = (.ok (), w) := need_name_ok.2 ⟨hn, rfl⟩
  unfold share_del
  rw [eval_bind, h1]
  simp only [hp, if_true]
  rfl

/-! ## Exactness -/

/-- The last line that starts with `[` at column 0. -/
def lastHeader (ls : List Line) : Option Line := (ls.filter isHeader).getLast?

/-- At each header line, the name is `n` iff the last header at column 0 is the line `[n]`. -/
def NamedAsFiltered (n t : Bytes) : Prop :=
  ∀ pre h post, (lines t).filter opensSection = pre ++ h :: post →
    (lastHeader (pre ++ [h]) = some (header n) ↔ sectionName h = some n)

/-- The sections of `t'` are those of `t` that are not named `n`, with the lines they have there. -/
def RemovesNamed (n t t' : Bytes) : Prop :=
  sambaSections t' = (sambaSections t).filter fun s => sectionName s.1 ≠ some n

/-- **The filter is exact iff it drops just what is named `n`.** -/
theorem awkDel_exact_iff : RemovesNamed n t (awkDel n t) ↔ NamedAsFiltered n t := by
  have hs : sambaSections (awkDel n t) = keptFrom isHeader (header n) false (sambaSections t) := by
    rw [sambaSections, lines_awkDel, segments_skipFrom_coarse fun _ => opensSection_of_isHeader]
    rfl
  have hf := keptFrom_eq_filter_iff isHeader (header n) (fun h => decide (sectionName h = some n))
    false (sambaSections t)
  simp only [RemovesNamed, hs, ← decide_not] at hf ⊢
  rw [hf, sambaSections, segments_headers]
  simp only [FlagAgrees, flagAfter_iff, decide_eq_true_eq]
  rfl

instance (n t t' : Bytes) : Decidable (RemovesNamed n t t') := inferInstanceAs (Decidable (_ = _))

instance (n t : Bytes) : Decidable (NamedAsFiltered n t) := decidable_of_iff _ awkDel_exact_iff

theorem hasHeader_named (hn : nameRe n = true) (h : hasHeader n t = true) :
    ∃ s ∈ sambaSections t, sectionName s.1 = some n := by
  simp only [hasHeader, List.any_eq_true, decide_eq_true_eq] at h
  obtain ⟨l, hl, hp⟩ := h
  obtain ⟨ho, hs⟩ := sectionName_of_prefix (nameRe_close hn) hp
  obtain ⟨s, hm, rfl⟩ := mem_segments_of_hd hl ho
  exact ⟨s, hm, hs⟩

/-- What is promised of `share-del n`, by its reply: an OK removes the sections named `n` and no
others; if there is none, the reply is ERR and smb.conf is as before. -/
def DelExact (n t : Bytes) (ok : Bool) (t' : Bytes) : Prop :=
  (ok = true → RemovesNamed n t t') ∧
  ((∀ s ∈ sambaSections t, sectionName s.1 ≠ some n) → ok = false ∧ t' = t)

instance (n t : Bytes) (ok : Bool) (t' : Bytes) : Decidable (DelExact n t ok t') :=
  inferInstanceAs (Decidable (_ ∧ _))

/-- **`share-del n` is exact on a text iff** no line begins with `[n]`, `mktemp` fails, `testparm`
rejects the filtered text, or at each header line the name is `n` just when the last header at
column 0 is the line `[n]`. A text has no NUL octet: `grep` would end a line there too. -/
theorem share_del_exact_iff (he : Copies e) (hg : ∀ b, e.ok (.grepHeader b n) = true)
    (hn : nameRe n = true) (hp : n ∉ PROTECTED_SHARES) (args : List Bytes) (stdin : Bytes)
    (w : World) :
    let c : Call := ⟨.shareDel, n :: args, stdin⟩
    DelExact n w.smb (c.accepted e w) (c.exec e w).2.smb ↔
      (hasHeader n w.smb = true → e.ok .mktemp = true →
        e.ok (.testparm (awkDel n w.smb)) = true → NamedAsFiltered n w.smb) := by
  intro c
  have hc : c.exec e w = (share_del (n :: args)).eval (exec e) w := rfl
  rw [share_del_eval (n :: args) hn hp] at hc
  have htmp : delTmp e n w.smb = awkDel n w.smb := by simp [delTmp, Env.written, he.awk]
  have hgr : ∀ b, e.greps b n w.smb = hasHeader n w.smb := fun b => by simp [Env.greps, hg b]
  simp only [show arg (n :: args) 0 = n from rfl, share_del_block_eval, htmp, hgr, he.delConf] at hc
  rw [Call.accepted, hc]
  cases hh : hasHeader n w.smb with
  | false =>
    -- refused
    simp [DelExact, Except.isOk, Except.toBool]
  | true =>
    obtain ⟨s, hs, hsn⟩ := hasHeader_named hn hh
    have hsome : ¬ ∀ s ∈ sambaSections w.smb, sectionName s.1 ≠ some n := fun h => h s hs hsn
    simp only [DelExact, if_true, hsome, false_imp_iff, and_true, true_imp_iff]
    cases e.ok .mktemp with
    | false => simp [Except.isOk, Except.toBool]
    | true =>
      cases e.ok (.testparm (awkDel n w.smb)) with
      | false => simp [Except.isOk, Except.toBool]
      | true => simpa [Except.isOk, Except.toBool] using awkDel_exact_iff

/-- A section written by `share-add` is removed exactly. -/
theorem share_del_exact_media :
    let w := { stage3World ∅ with smb := stage3Conf ++ shareBlock (bytes "media") .family [] }
    let c : Call := ⟨.shareDel, [bytes "media"], []⟩
    DelExact (bytes "media") w.smb (c.accepted allOk w) (c.exec allOk w).2.smb := by
  intro w
  have hf : NamedAsFiltered (bytes "media") w.smb := by decide +kernel
  have hn : nameRe (bytes "media") = true := by decide
  have hp : bytes "media" ∉ PROTECTED_SHARES := by decide
  exact (share_del_exact_iff succeeds_allOk.copies (fun _ => rfl) hn hp [] [] w).2 fun _ _ _ => hf

/-- A header with a comment after it, as in the template: the reply is OK and the section stays. -/
theorem share_del_comment :
    let t := stage3Conf ++ bytes "[music]         ; family share\n   path = /srv/nas/music\n"
    let w := { stage3World ∅ with smb := t }
    let c : Call := ⟨.shareDel, [bytes "music"], []⟩
    ¬ DelExact (bytes "music") w.smb (c.accepted allOk w) (c.exec allOk w).2.smb := by
  decide +kernel

/-! ## Undoing `share-add` -/

/-- The filter drops the block that `share-add` appended; the blank line before it may stay. -/
theorem lines_undo (hn : nameRe n = true) {owner : Bytes} {typ : ShareType}
    (ho : typ = .priv → nameRe owner = true) (hh : hasHeader n t = false) :
    lines (awkDel n (t ++ shareBlock n typ owner)) = lines (t ++ [nl]) := by
  have hb := shareLines_body (nameRe_nl hn) fun hp => nameRe_nl (ho hp)
  have hl : ∀ l ∈ header n :: shareLines n typ owner, nl ∉ l := by
    intro l hl
    rcases List.mem_cons.1 hl with rfl | hl
    · exact nl_notMem_header (nameRe_nl hn)
    · exact (hb l hl).1
  have hnot : header n ∉ lines (t ++ [nl]) := by
    intro hm
    rw [lines, records_close, List.mem_append] at hm
    rcases hm with hm | hm
    · have : hasHeader n t = true := by
        simp only [hasHeader, List.any_eq_true, decide_eq_true_eq]
        exact ⟨_, hm, List.prefix_rfl⟩
      rw [hh] at this
      cases this
    · split at hm
      · rw [List.mem_singleton] at hm
        cases hm
      · cases hm
  rw [lines_awkDel, shareBlock, lines_append_block t hl]
  exact skipFrom_append_tgt hnot (isHeader_header n) fun l hl => (hb l hl).2.1

/-- `t'` has the sections and the lines of `t`, up to one blank line at the end. -/
def Undone (t t' : Bytes) : Prop :=
  sections t' = sections t ∧ (lines t' = lines t ∨ lines t' = lines t ++ [[]])

theorem undone_awkDel (hn : nameRe n = true) {owner : Bytes} {typ : ShareType}
    (ho : typ = .priv → nameRe owner = true) (hh : hasHeader n t = false) :
    Undone t (awkDel n (t ++ shareBlock n typ owner)) := by
  have hl := lines_undo hn ho hh
  refine ⟨?_, ?_⟩
  · rw [← sections_close t, sections, sections, hl]
  · rw [hl, lines, records_close]
    split
    · exact .inr rfl
    · exact .inl (List.append_nil _)

theorem hasHeader_shareBlock {owner : Bytes} {typ : ShareType} (hn : nameRe n = true)
    (ho : typ = .priv → nameRe owner = true) : hasHeader n (t ++ shareBlock n typ owner) = true := by
  have hs := sections_add t (nameRe_nl hn) fun hp => nameRe_nl (ho hp)
  by_contra hh
  rw [Bool.not_eq_true] at hh
  exact notMem_of_not_hasHeader hh (header n, shareLines n typ owner) (by simp [hs]) rfl

/-- **`share-del` undoes `share-add`**, just when the name is not protected. -/
theorem share_del_undoes_iff {e' : Env} (he : Succeeds e) (he' : Succeeds e') {w₁ : World}
    (hadd : (⟨.shareAdd, args, stdin⟩ : Call).exec e w = (.ok m, w₁)) (stdin' : Bytes) :
    let c : Call := ⟨.shareDel, [arg args 0], stdin'⟩
    (c.accepted e' w₁ = true ∧ Undone w.smb (c.exec e' w₁).2.smb) ↔
      arg args 0 ∉ PROTECTED_SHARES := by
  intro c
  obtain ⟨hn, hg, typ, o, mode, -, ho, rfl, -⟩ := share_add_ok hadd
  rw [he.greps] at hg
  rw [he.copies.addConf]
  have hc : c.exec e' = (share_del [arg args 0]).eval (exec e') := rfl
  rw [Call.accepted, hc]
  by_cases hp : arg args 0 ∈ PROTECTED_SHARES
  · rw [share_del_protected [arg args 0] hn hp]
    simp [hp, Except.isOk, Except.toBool]
  · have hh := hasHeader_shareBlock (t := w.smb) hn fun hp => (ho hp).1
    have hu := undone_awkDel hn (fun hp => (ho hp).1) hg
    rw [share_del_eval [arg args 0] hn hp]
    simp only [show arg [arg args 0] 0 = arg args 0 from rfl, share_del_block_eval, he'.greps, hh,
      he'.ok, he'.copies.delConf, if_true]
    exact iff_of_true ⟨rfl, hu⟩ hp

/-- On the box as built, for a family share. -/
theorem share_del_undoes_media :
    let w := stage3World ∅
    let w₁ := ((⟨.shareAdd, [bytes "media"], []⟩ : Call).exec allOk w).2
    let c : Call := ⟨.shareDel, [bytes "media"], []⟩
    c.accepted allOk w₁ = true ∧ Undone w.smb (c.exec allOk w₁).2.smb := by
  intro w w₁
  have hok : ((⟨.shareAdd, [bytes "media"], []⟩ : Call).exec allOk w).1 =
      .ok (bytes "OK: share media added") := by decide +kernel
  have hadd : (⟨.shareAdd, [bytes "media"], []⟩ : Call).exec allOk w =
      (.ok (bytes "OK: share media added"), w₁) := Prod.ext hok rfl
  have harg : arg [bytes "media"] 0 = bytes "media" := rfl
  have hp : bytes "media" ∉ PROTECTED_SHARES := by decide
  have h := share_del_undoes_iff succeeds_allOk succeeds_allOk hadd []
  rw [harg] at h
  exact h.2 hp

/-- `share-add homes` replies OK, and `share-del homes` then refuses. -/
theorem share_del_homes :
    let w₁ := ((⟨.shareAdd, [bytes "homes"], []⟩ : Call).exec allOk (stage3World ∅)).2
    (⟨.shareAdd, [bytes "homes"], []⟩ : Call).accepted allOk (stage3World ∅) = true ∧
      ((⟨.shareDel, [bytes "homes"], []⟩ : Call).exec allOk w₁).1 =
        .error (bytes "protected share") := by
  decide +kernel

end Panel
