import MyCloud.Panel.Proof.Listing

/-!
# smb.conf as a table of shares

`Table` is what smb.conf stands for: the shares in order, each with its type, its owner and the
lines its section was created with. `Table.step` says what an acknowledged call does to it, from
the call and its reply alone.

* `Rep t T`: the sections of the text `t` are `[global]` and one for each entry of `T`.
* `rep_change`: every call that is not about `global` keeps `Rep`.
* `share_table`: over every run from the box as built, `share-list` prints the table.
-/

set_option autoImplicit false

namespace Panel

open Shell

/-! ## The table -/

structure Entry where
  name : Bytes
  typ : ShareType
  owner : Bytes
  /-- The lines the section was created with. -/
  lines : List Line
  deriving DecidableEq

abbrev Table := List Entry

def Entry.new (n : Bytes) (typ : ShareType) (owner : Bytes) : Entry :=
  ⟨n, typ, owner, shareLines n typ owner⟩

def Entry.section_ (en : Entry) : Line × List Line := (header en.name, en.lines)

/-- The line of `share-list` for an entry. -/
def Entry.row (en : Entry) : Line := en.name ++ tab :: en.typ.description en.owner

/-- The shares of stage 3. -/
def Table.start : Table :=
  [⟨bytes "public", .guest, [], publicLines⟩, ⟨alpha, .priv, alpha, alphaLines⟩]

def Table.names (T : Table) : List Bytes := T.map Entry.name

/-- The table after a call with the reply OK (`ok`) or ERR. -/
def Table.step (T : Table) (c : Call) (ok : Bool) : Table :=
  if ok then
    match c.verb with
    | .shareAdd =>
      match c.shareType with
      | some typ => T ++ [.new c.name typ (arg c.args 2)]
      | none => T
    | .userAdd => if c.withShare ∧ c.name ∉ T.names then T ++ [.new c.name .priv c.name] else T
    | .shareDel | .userDel => T.filter fun en => en.name ≠ c.name
    | _ => T
  else T

/-- The table after a run from `w`. -/
def Table.run (T : Table) (w : World) : List (Env × Call) → Table
  | [] => T
  | (e, c) :: cs => (T.step c (c.accepted e w)).run (c.exec e w).2 cs

/-! ## The representation -/

/-- The text `t` represents the table `T`. -/
structure Rep (t : Bytes) (T : Table) : Prop where
  sections_eq : sections t = (header (bytes "global"), globalLines) :: T.map Entry.section_
  nodup : T.names.Nodup
  names : ∀ en ∈ T, nameRe en.name = true ∧ en.name ≠ bytes "global"
  rows : ∀ en ∈ T, sectionRow en.section_ = [en.row]

theorem rep_start : Rep stage3Conf .start where
  sections_eq := sections_stage3
  nodup := by decide
  names := by decide
  rows := by
    simp only [Table.start, List.mem_cons, List.not_mem_nil, or_false]
    rintro en (rfl | rfl)
    · exact sectionRow_public
    · exact sectionRow_alpha

variable {t t' : Bytes} {T : Table}

theorem Rep.exactHeaders (h : Rep t T) : ExactHeaders t := by
  rw [exactHeaders_iff, h.sections_eq]
  intro s hs
  rcases List.mem_cons.1 hs with rfl | hs
  · exact ⟨bytes "global", by decide, rfl⟩
  · obtain ⟨en, hen, rfl⟩ := List.mem_map.1 hs
    exact ⟨en.name, nameRe_close (h.names en hen).1, rfl⟩

/-- The `grep` of the verbs is membership in the table. -/
theorem Rep.hasHeader_iff (h : Rep t T) {n : Bytes} (hn : nameRe n = true)
    (hg : n ≠ bytes "global") : hasHeader n t = true ↔ n ∈ T.names := by
  rw [Panel.hasHeader_iff h.exactHeaders hn, h.sections_eq]
  simp only [List.mem_cons, exists_eq_or_imp, Table.names, List.mem_map]
  constructor
  · rintro (h | ⟨s, ⟨en, hen, rfl⟩, hs⟩)
    · exact absurd (header_inj.1 h).symm hg
    · exact ⟨en, hen, header_inj.1 hs⟩
  · rintro ⟨en, hen, rfl⟩
    exact .inr ⟨en.section_, ⟨en, hen, rfl⟩, rfl⟩

theorem Rep.notMem (h : Rep t T) {n : Bytes} (hn : nameRe n = true) (hg : n ≠ bytes "global")
    (hh : hasHeader n t = false) : n ∉ T.names := fun hm => by
  rw [(h.hasHeader_iff hn hg).2 hm] at hh
  cases hh

theorem Rep.add (h : Rep t T) {n owner : Bytes} {typ : ShareType} (hn : nameRe n = true)
    (hg : n ≠ bytes "global") (ho : typ = .priv → nameRe owner = true)
    (hh : hasHeader n t = false) :
    Rep (t ++ shareBlock n typ owner) (T ++ [.new n typ owner]) where
  sections_eq := by
    rw [sections_add t (nameRe_nl hn) fun hp => nameRe_nl (ho hp), h.sections_eq, List.map_append]
    rfl
  nodup := by
    rw [Table.names, List.map_append]
    refine List.nodup_append.2 ⟨h.nodup, by simp, ?_⟩
    intro a ha b hb
    rw [List.map_singleton, List.mem_singleton] at hb
    subst hb
    exact fun he => h.notMem hn hg hh (he ▸ ha)
  names := by
    intro en hen
    rcases List.mem_append.1 hen with hen | hen
    · exact h.names en hen
    · rw [List.mem_singleton] at hen
      subst hen
      exact ⟨hn, hg⟩
  rows := by
    intro en hen
    rcases List.mem_append.1 hen with hen | hen
    · exact h.rows en hen
    · rw [List.mem_singleton] at hen
      subst hen
      exact sectionRow_share hn hg ho

theorem Rep.del (h : Rep t T) {n : Bytes} (hg : n ≠ bytes "global") :
    Rep (awkDel n t) (T.filter fun en => en.name ≠ n) where
  sections_eq := by
    rw [sections_awkDel, h.sections_eq, List.filter_cons_of_pos, List.filter_map]
    · refine congrArg (_ :: ·) (congrArg (List.map _) (List.filter_congr fun en _ => ?_))
      simp [Entry.section_]
    · simpa using fun h => hg h.symm
  nodup := h.nodup.sublist (List.filter_sublist.map _)
  names := fun en hen => h.names en (List.mem_of_mem_filter hen)
  rows := fun en hen => h.rows en (List.mem_of_mem_filter hen)

/-- **A call that is not about `global` keeps the representation.** -/
theorem rep_change {e : Env} (he : Succeeds e) {c : Call} {ok : Bool} (h : Rep t T)
    (hg : c.name ≠ bytes "global") (hc : Change e c ok t t') : Rep t' (T.step c ok) := by
  cases hc with
  | refused => exact h
  | shareAdd hv hn hgr ht ho =>
    rw [he.greps] at hgr
    simp only [Table.step, hv, ht, if_true]
    exact h.add hn hg ho hgr
  | userAdd hv hn hp hs hgr =>
    rw [he.greps] at hgr
    simp only [Table.step, hv, if_true, if_pos (And.intro hs (h.notMem hn hg hgr))]
    exact h.add hn hg (fun _ => hn) hgr
  | userAddOnly hv hn hp hs =>
    have : ¬ (c.withShare ∧ c.name ∉ T.names) := fun ⟨h1, h2⟩ => hs ⟨h1, by
      rw [he.greps, ← Bool.not_eq_true, h.hasHeader_iff hn hg]
      exact h2⟩
    simp only [Table.step, hv, if_true, if_neg this]
    exact h
  | shareDel hv => simpa only [Table.step, hv, if_true] using h.del hg
  | userDel hv => simpa only [Table.step, hv, if_true] using h.del hg
  | shareDelOnly hv hn hp hgr hgr' =>
    rw [he.greps] at hgr hgr'
    rw [hgr] at hgr'
    cases hgr'
  | userDelOnly hv hn hp hgr =>
    rw [he.greps] at hgr
    have : T.filter (fun en => decide (en.name ≠ c.name)) = T :=
      List.filter_eq_self.2 fun en hen => decide_eq_true fun heq =>
        h.notMem hn hg hgr (heq ▸ List.mem_map_of_mem hen)
    simp only [Table.step, hv, if_true, this]
    exact h
  | other hv =>
    have : T.step c true = T := by
      simp only [List.mem_cons, List.not_mem_nil, or_false, not_or] at hv
      simp only [Table.step, if_true]
      split <;> simp_all
    rw [this]
    exact h

theorem rep_run {cs : List (Env × Call)} (hcs : ∀ p ∈ cs, Succeeds p.1 ∧ p.2.name ≠ bytes "global")
    {w : World} (h : Rep w.smb T) : Rep (runCalls w cs).smb (T.run w cs) := by
  induction cs generalizing w T with
  | nil => exact h
  | cons p cs ih =>
    obtain ⟨e, c⟩ := p
    obtain ⟨he, hg⟩ := hcs _ List.mem_cons_self
    exact ih (fun p hp => hcs p (List.mem_cons_of_mem _ hp))
      (rep_change he h hg (exec_change he.copies c w))

/-- `share-list` prints the rows of the table. -/
theorem Rep.listLines (h : Rep t T) : listLines t = T.map Entry.row := by
  rw [listLines_eq, h.sections_eq, List.flatMap_cons, sectionRow_global_stage3, List.nil_append,
    List.flatMap_map, List.map_eq_flatMap]
  exact List.flatMap_congr fun en hen => h.rows en hen

/-- No name is in two headers. -/
theorem Rep.headers_nodup (h : Rep t T) : ((lines t).filter isHeader).Nodup := by
  have hs : (lines t).filter isHeader = (sections t).map (·.1) := by
    rw [← segments_headers, sections, List.map_map]
    rfl
  have hg : bytes "global" ∉ T.names := fun hm => by
    obtain ⟨en, hen, hn⟩ := List.mem_map.1 hm
    exact (h.names en hen).2 hn
  have hm : (sections t).map (·.1) = (bytes "global" :: T.names).map header := by
    rw [h.sections_eq, List.map_cons, List.map_map, List.map_cons, Table.names, List.map_map]
    rfl
  rw [hs, hm]
  exact (List.nodup_cons.2 ⟨hg, h.nodup⟩).map fun _ _ he => header_inj.1 he

/-- **smb.conf refines the table**, over every run from the box as built that names no `global`:
`share-list` prints the table, no name is in two headers, and every section has the lines it was
created with. -/
theorem share_table (base : Base) (cs : List (Env × Call))
    (hcs : ∀ p ∈ cs, Succeeds p.1 ∧ p.2.name ≠ bytes "global") (e : Env) (he : Succeeds e)
    (args : List Bytes) (stdin : Bytes) :
    let w := runCalls (stage3World base) cs
    let T := Table.start.run (stage3World base) cs
    (⟨.shareList, args, stdin⟩ : Call).exec e w = (.ok (unlines (T.map Entry.row)), w) ∧
      ((lines w.smb).filter isHeader).Nodup ∧
      sections w.smb = (header (bytes "global"), globalLines) :: T.map Entry.section_ := by
  intro w T
  have h : Rep w.smb T := rep_run hcs rep_start
  exact ⟨by rw [share_list_exec (he _), h.listLines], h.headers_nodup, h.sections_eq⟩

/-- A family share, a user with a share, a user without one, and a deletion. -/
theorem share_table_example :
    let cs := [(allOk, ⟨.shareAdd, [bytes "media"], []⟩),
      (allOk, ⟨.userAdd, [bytes "bob"], bytes "secret\n"⟩),
      (allOk, ⟨.userAdd, [bytes "eve", bytes "noshare"], []⟩),
      (allOk, ⟨.shareDel, [bytes "media"], []⟩)]
    let w := runCalls (stage3World ∅) cs
    (⟨.shareList, [], []⟩ : Call).exec allOk w =
      (.ok (unlines ((Table.start ++ [Entry.new (bytes "bob") .priv (bytes "bob")]).map Entry.row)), w) := by
  intro cs w
  have hcs : ∀ p ∈ cs, Succeeds p.1 ∧ p.2.name ≠ bytes "global" := by
    simp only [cs, List.mem_cons, List.not_mem_nil, or_false]
    rintro p (rfl | rfl | rfl | rfl) <;> exact ⟨succeeds_allOk, by decide⟩
  have hT : Table.start.run (stage3World ∅) cs =
      Table.start ++ [Entry.new (bytes "bob") .priv (bytes "bob")] := by decide +kernel
  rw [← hT]
  exact (share_table ∅ cs hcs allOk succeeds_allOk [] []).1

end Panel
