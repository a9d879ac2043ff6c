import MyCloud.Panel.Proof.Runs

/-!
# Reading smb.conf back

`share-list` reads the text with an `awk` pass over all lines, joins five fields with tabs, and
splits them again in the shell. Here its output is brought back to the sections:

* `listLines_eq`: the output is one row (or none, for `[global]`) for each section.
* `readTab_row`, `readTab_row_empty`: the five fields in the shell; an empty one is lost.
* `sectionRow_share`: the row of a section written by `share_add_block` is its name and the
  description of its type.
-/

set_option autoImplicit false

namespace Panel

open Shell

/-! ## The `awk` pass, section by section -/

/-- The variables of the `awk` program at the header of a section. -/
def headerFields (h : Line) : Fields := ⟨unbracket h, bytes "no", [], bytes "no", []⟩

/-- The variables after the lines of a section. -/
def lineFields (f : Fields) (ls : List Line) : Fields := ls.foldl (fun f l => (awkLine f l).2) f

/-- The rows of a section: one, or none for `[global]`. -/
def sectionRow (s : Line × List Line) : List Line :=
  (emit (lineFields (headerFields s.1) s.2)).map listLine

theorem awkLine_header {l : Line} (hl : isHeader l = true) (f : Fields) :
    awkLine f l = (emit f, headerFields l) := by
  simp [awkLine, hl, headerFields]

theorem awkLine_item {l : Line} (hl : isHeader l = false) (f : Fields) : (awkLine f l).1 = [] := by
  simp [awkLine, hl]

theorem awkLine_n {l : Line} (hl : isHeader l = false) (f : Fields) : (awkLine f l).2.n = f.n := by
  have h₁ : ∀ f, (guestRule l f).n = f.n := fun f => by
    unfold guestRule; split
    · split <;> rfl
    · rfl
  have h₂ : ∀ f, (readOnlyRule l f).n = f.n := fun f => by
    unfold readOnlyRule; split
    · split <;> rfl
    · rfl
  have h₃ : ∀ f, (validUsersRule l f).2.n = f.n := fun f => by unfold validUsersRule; split <;> rfl
  have h₄ : ∀ l f, (writeListRule l f).n = f.n := fun l f => by unfold writeListRule; split <;> rfl
  simp [awkLine, hl, h₁, h₂, h₃, h₄]

@[simp] theorem awkLine_nil (f : Fields) : awkLine f [] = ([], f) := rfl

/-- The pass over some lines: those before the first header, then each section. -/
theorem awkList_eq (f : Fields) (ls : List Line) :
    awkList f ls = emit (lineFields f (segments isHeader ls).1) ++
      (segments isHeader ls).2.flatMap fun s => emit (lineFields (headerFields s.1) s.2) := by
  induction ls generalizing f with
  | nil => simp [awkList, lineFields]
  | cons l ls ih =>
    cases hl : isHeader l with
    | true =>
      rw [awkList, awkLine_header hl, ih, segments_header hl]
      simp [lineFields]
    | false =>
      rw [awkList, awkLine_item hl, ih, segments_item hl]
      rfl

theorem lineFields_n {ls : List Line} (h : ∀ l ∈ ls, isHeader l = false) (f : Fields) :
    (lineFields f ls).n = f.n := by
  induction ls generalizing f with
  | nil => rfl
  | cons l ls ih =>
    have := ih (fun l hl => h l (List.mem_cons_of_mem _ hl)) (awkLine f l).2
    exact this.trans (awkLine_n (h l List.mem_cons_self) f)

/-- Blank lines at the end of a section change no variable. -/
theorem lineFields_trim (f : Fields) (ls : List Line) : lineFields f (trim ls) = lineFields f ls := by
  induction ls using List.reverseRecOn with
  | nil => rfl
  | append_singleton ls l ih =>
    by_cases hl : l = []
    · subst hl
      rw [trim_snoc_nil, ih]
      simp [lineFields]
    · rw [trim, List.rdropWhile_concat_neg _ _ _ (by simpa using hl)]

/-- **The listing is one row, or none for `[global]`, for each section.** -/
theorem listLines_eq (t : Bytes) : listLines t = (sections t).flatMap sectionRow := by
  have hpre : emit (lineFields .start (segments isHeader (lines t)).1) = [] := by
    have hn : (lineFields .start (segments isHeader (lines t)).1).n = [] :=
      lineFields_n (fun l hl => preamble_item hl) _
    simp [emit, hn]
  unfold listLines sections
  rw [awkList_eq, hpre, List.nil_append, List.map_flatMap, List.flatMap_map]
  simp only [sectionRow, lineFields_trim]

theorem share_list_exec {e : Env} (he : e.outcome .readConf = .ok) (args : List Bytes)
    (stdin : Bytes) (w : World) :
    (⟨.shareList, args, stdin⟩ : Call).exec e w = (.ok (unlines (listLines w.smb)), w) := by
  have h : e.written .readConf w.smb = w.smb := by simp [Env.written, he]
  have h' : (⟨.shareList, args, stdin⟩ : Call).exec e w =
    (.ok (unlines (listLines (e.written .readConf w.smb))), w) := rfl
  rw [h', h]

/-! ## The fields in the shell -/

/-- A field before a tab is read as it is. -/
theorem readTab_field {a : Bytes} (ha : a ≠ []) (ht : tab ∉ a) (k : ℕ) (t : Bytes) :
    readTab (k + 2) (a ++ tab :: t) = a :: readTab (k + 1) (tab :: t) := by
  have h : ∀ c ∈ a, c ≠ tab := fun c hc h => ht (h ▸ hc)
  obtain ⟨c, a, rfl⟩ := List.exists_cons_of_ne_nil ha
  have hd : (c :: a ++ tab :: t).dropWhile (fun d => decide (d = tab)) = c :: a ++ tab :: t :=
    List.dropWhile_cons_of_neg (by simpa using h c List.mem_cons_self)
  have htake : (c :: a ++ tab :: t).takeWhile (fun d => decide (d ≠ tab)) = c :: a := by
    rw [List.takeWhile_append_of_pos (fun d hd => by simpa using h d hd)]
    simp
  have hdrop : (c :: a ++ tab :: t).dropWhile (fun d => decide (d ≠ tab)) = tab :: t := by
    rw [List.dropWhile_append_of_pos (fun d hd => by simpa using h d hd)]
    simp
  rw [readTab, hd, htake, hdrop]

theorem readTab_tab (k : ℕ) (t : Bytes) : readTab (k + 1) (tab :: t) = readTab (k + 1) t := by
  cases k <;> simp [readTab]

/-- The last variable of `read` takes the rest of the line. -/
theorem readTab_rest {a : Bytes} (ha : tab ∉ a) : readTab 1 a = [a] := by
  have hd : a.dropWhile (fun c => decide (c = tab)) = a := by
    cases a with
    | nil => rfl
    | cons c a => exact List.dropWhile_cons_of_neg (by simpa using fun h => ha (by simp [h]))
  have hr : a.rdropWhile (fun c => decide (c = tab)) = a :=
    List.rdropWhile_eq_self_iff.2 fun hne h =>
      ha (of_decide_eq_true h ▸ List.getLast_mem hne)
  rw [readTab, hd, hr]

/-- The last field, when one variable more is left. -/
theorem readTab_last {a : Bytes} (ha : tab ∉ a) : readTab 2 a = [a, []] := by
  cases a with
  | nil => rfl
  | cons c a =>
    have hne : ∀ d ∈ c :: a, decide (d ≠ tab) = true :=
      fun d hd => decide_eq_true fun he : d = tab => ha (he ▸ hd)
    have hd : (c :: a).dropWhile (fun d => decide (d = tab)) = c :: a :=
      List.dropWhile_cons_of_neg (by simpa using hne c List.mem_cons_self)
    have ht : (c :: a).takeWhile (fun d => decide (d ≠ tab)) = c :: a :=
      List.takeWhile_eq_self_iff.2 hne
    have hw : (c :: a).dropWhile (fun d => decide (d ≠ tab)) = [] :=
      List.dropWhile_eq_nil_iff.2 hne
    rw [readTab, hd, ht, hw]
    rfl

section
variable {n g vu ro wl : Bytes}

/-- A record without an empty field before the last is read as it was written. -/
theorem readTab_row (hn : n ≠ [] ∧ tab ∉ n) (hg : g ≠ [] ∧ tab ∉ g) (hv : vu ≠ [] ∧ tab ∉ vu)
    (hr : ro ≠ [] ∧ tab ∉ ro) (hw : tab ∉ wl) :
    readTab 5 (n ++ tab :: (g ++ tab :: (vu ++ tab :: (ro ++ tab :: wl)))) = [n, g, vu, ro, wl] := by
  rw [readTab_field hn.1 hn.2, readTab_tab, readTab_field hg.1 hg.2, readTab_tab,
    readTab_field hv.1 hv.2, readTab_tab, readTab_field hr.1 hr.2, readTab_tab, readTab_rest hw]

/-- **An empty field is lost**: without valid users the fields after them move up. -/
theorem readTab_row_empty (hn : n ≠ [] ∧ tab ∉ n) (hg : g ≠ [] ∧ tab ∉ g)
    (hr : ro ≠ [] ∧ tab ∉ ro) (hw : tab ∉ wl) :
    readTab 5 (n ++ tab :: (g ++ tab :: tab :: (ro ++ tab :: wl))) = [n, g, ro, wl, []] := by
  rw [readTab_field hn.1 hn.2, readTab_tab, readTab_field hg.1 hg.2, readTab_tab, readTab_tab,
    readTab_field hr.1 hr.2, readTab_tab, readTab_last hw]

end

/-! ## A section written by `share_add_block` -/

/-- The description of a share of each type. -/
def ShareType.description (typ : ShareType) (owner : Bytes) : Bytes :=
  match typ with
  | .priv => owner ++ bytes " + admins"
  | .family => bytes "all users"
  | .guest => bytes "anyone on the network (guest, no password)"

theorem unbracket_exact {n : Bytes} (hn : ']'.toUInt8 ∉ n) :
    unbracket (header n) = n.filter (· ≠ '['.toUInt8) := by
  have h : ∀ c ∈ n, c ≠ ']'.toUInt8 := fun c hc he => hn (he ▸ hc)
  unfold unbracket
  rw [header_eq, List.filter_cons_of_neg (by decide), List.filter_append,
    List.filter_cons_of_neg (by decide), List.filter_nil, List.append_nil]
  exact List.filter_congr fun c hc => by simp [h c hc]

theorem unbracket_header {n : Bytes} (hn : nameRe n = true) : unbracket (header n) = n := by
  have hc : ']'.toUInt8 ∉ n := nameRe_notMem hn (by decide)
  have ho : '['.toUInt8 ∉ n := nameRe_notMem hn (by decide)
  rw [unbracket_exact hc]
  exact List.filter_eq_self.2 fun c hm => decide_eq_true fun he : c = _ => ho (he ▸ hm)

theorem dropWhile_name {o : Bytes} (ho : nameRe o = true) (t : Bytes) (p : UInt8 → Bool)
    (hp : ∀ c, p c = true → isLower c = false ∧ isDigit c = false) :
    (o ++ t).dropWhile p = o ++ t := by
  cases o with
  | nil => cases ho
  | cons c o =>
    refine List.dropWhile_cons_of_neg fun hc => ?_
    exact nameRe_notMem ho (hp c hc) List.mem_cons_self

theorem isBlank_notName (c : UInt8) (hc : isBlank c = true) :
    isLower c = false ∧ isDigit c = false := by
  simp only [isBlank, Bool.or_eq_true, decide_eq_true_eq] at hc
  rcases hc with rfl | rfl <;> decide

theorem stripKey_name {k m : Bytes} {o : Bytes} (ho : nameRe o = true) (t : Bytes)
    (hk : space ∉ k) (ht : ¬ m <+: t) : stripKey (k ++ space :: m) (o ++ space :: t) = none := by
  have hs : space ∉ o := nameRe_notMem ho (by decide)
  unfold stripKey
  rw [dropWhile_name ho _ _ isBlank_notName, if_neg]
  rw [append_sep_prefix_iff hk hs]
  exact fun h => ht h.2

theorem fields_priv {n o : Bytes} (hn : nameRe n = true) (ho : nameRe o = true) :
    lineFields (headerFields (header n)) (shareLines n .priv o) =
      ⟨n, bytes "no", o ++ bytes " @smbadmins", bytes "no", []⟩ := by
  -- after `valid users` its value, and not the line, is matched against `write list`
  have h : lineFields (headerFields (header n)) (shareLines n .priv o) =
    lineFields (writeListRule ((o ++ bytes " @smbadmins").dropWhile isBlank)
        ⟨unbracket (header n), bytes "no", (o ++ bytes " @smbadmins").dropWhile isBlank,
          bytes "no", []⟩)
      (["   force group = users", "   create mask = 0664", "   directory mask = 2775"].map bytes ++
        recycleLines) := rfl
  have hw : stripKey (bytes "write list") (o ++ bytes " @smbadmins") = none :=
    stripKey_name (k := bytes "write") (m := bytes "list") ho _ (by decide) (by decide)
  rw [h, unbracket_header hn, dropWhile_name ho _ _ isBlank_notName, writeListRule, hw]
  rfl

theorem fields_family {n : Bytes} (hn : nameRe n = true) (o : Bytes) :
    lineFields (headerFields (header n)) (shareLines n .family o) =
      ⟨n, bytes "no", bytes "@users", bytes "no", []⟩ := by
  have h : lineFields (headerFields (header n)) (shareLines n .family o) =
    ⟨unbracket (header n), bytes "no", bytes "@users", bytes "no", []⟩ := rfl
  rw [h, unbracket_header hn]

theorem fields_guest {n : Bytes} (hn : nameRe n = true) (o : Bytes) :
    lineFields (headerFields (header n)) (shareLines n .guest o) =
      ⟨n, bytes "yes", [], bytes "no", []⟩ := by
  have h : lineFields (headerFields (header n)) (shareLines n .guest o) =
    ⟨unbracket (header n), bytes "yes", [], bytes "no", []⟩ := rfl
  rw [h, unbracket_header hn]

theorem nameRe_tab {n : Bytes} (hn : nameRe n = true) : tab ∉ n := nameRe_notMem hn (by decide)

theorem ownerOf_name {o : Bytes} (ho : nameRe o = true) :
    ownerOf (o ++ bytes " @smbadmins") = o := by
  have hsp : ∀ c ∈ o, c ≠ space := fun c hc h => nameRe_notMem ho (by decide) (h ▸ hc)
  have hm : o.map (fun c => if c = space then nl else c) = o :=
    (List.map_congr_left fun c hc => if_neg (hsp c hc)).trans (List.map_id' o)
  have hmap : (o ++ bytes " @smbadmins" ++ [nl]).map (fun c => if c = space then nl else c) =
      o ++ nl :: (bytes "@smbadmins" ++ nl :: []) := by
    rw [List.map_append, List.map_append, hm, List.append_assoc]
    rfl
  have hhead : o.head? ≠ some '@'.toUInt8 := fun h =>
    nameRe_notMem ho (by decide) (List.mem_of_head? h)
  unfold ownerOf
  rw [hmap, records_piece (nameRe_nl ho), records_piece (by decide), List.filter_cons_of_pos]
  · rfl
  · simpa using hhead

theorem describe_priv {o : Bytes} (ho : nameRe o = true) :
    describe (bytes "no") (o ++ bytes " @smbadmins") (bytes "no") [] = o ++ bytes " + admins" := by
  have hat : '@'.toUInt8 ∉ o ++ bytes " " := by
    simp only [List.mem_append, not_or]
    exact ⟨nameRe_notMem ho (by decide), by decide⟩
  have hu : replaceFirst (bytes "@users") [] (o ++ bytes " @smbadmins") =
      o ++ bytes " @smbadmins" := by
    have h : replaceFirst ('@'.toUInt8 :: bytes "users") [] (_ ++ bytes "@smbadmins") = _ :=
      replaceFirst_append hat (bytes "@smbadmins")
    rw [List.append_assoc, List.append_assoc] at h
    exact h
  have ha : replaceFirst (bytes "@smbadmins") [] (o ++ bytes " @smbadmins") ≠
      o ++ bytes " @smbadmins" :=
    (replaceFirst_ne_iff (by decide)).2 ⟨o ++ bytes " ", [], by simp; rfl⟩
  unfold describe
  rw [if_neg (by decide), if_neg (by decide), if_neg (not_not.2 hu), if_pos ha, ownerOf_name ho,
    if_pos (nameRe_ne_nil ho)]

/-- **The row of a section written by `share_add_block`.** -/
theorem sectionRow_share {n o : Bytes} {typ : ShareType} (hn : nameRe n = true)
    (hg : n ≠ bytes "global") (ho : typ = .priv → nameRe o = true) :
    sectionRow (header n, shareLines n typ o) = [n ++ tab :: typ.description o] := by
  have hemit : n ≠ [] ∧ n ≠ bytes "global" := ⟨nameRe_ne_nil hn, hg⟩
  have hname : n ≠ [] ∧ tab ∉ n := ⟨nameRe_ne_nil hn, nameRe_tab hn⟩
  have hno : bytes "no" ≠ [] ∧ tab ∉ bytes "no" := by decide
  have hyes : bytes "yes" ≠ [] ∧ tab ∉ bytes "yes" := by decide
  have husers : bytes "@users" ≠ [] ∧ tab ∉ bytes "@users" := by decide
  cases typ with
  | priv =>
    have ho := ho rfl
    have ht : tab ∉ o ++ bytes " @smbadmins" := by
      simp only [List.mem_append, not_or]
      exact ⟨nameRe_tab ho, by decide⟩
    simp only [sectionRow, fields_priv hn ho, emit, if_pos hemit, List.map_cons, List.map_nil,
      listLine]
    rw [readTab_row hname hno ⟨by simp [nameRe_ne_nil ho], ht⟩ hno List.not_mem_nil]
    exact congrArg (fun d => [n ++ tab :: d]) (describe_priv ho)
  | family =>
    simp only [sectionRow, fields_family hn, emit, if_pos hemit, List.map_cons, List.map_nil,
      listLine]
    rw [readTab_row hname hno husers hno List.not_mem_nil]
    rfl
  | guest =>
    simp only [sectionRow, fields_guest hn, emit, if_pos hemit, List.map_cons, List.map_nil,
      listLine, List.nil_append]
    -- without valid users a field is lost, and those after it move up
    rw [readTab_row_empty hname hyes hno List.not_mem_nil]
    rfl

/-- `[global]`, also one that `share_add_block` wrote, has no row. -/
theorem sectionRow_global {n o : Bytes} {typ : ShareType} (hn : nameRe n = true)
    (hg : n = bytes "global") (ho : typ = .priv → nameRe o = true) :
    sectionRow (header n, shareLines n typ o) = [] := by
  have hemit : ¬ (n ≠ [] ∧ n ≠ bytes "global") := fun h => h.2 hg
  cases typ with
  | priv => simp only [sectionRow, fields_priv hn (ho rfl), emit, if_neg hemit, List.map_nil]
  | family => simp only [sectionRow, fields_family hn, emit, if_neg hemit, List.map_nil]
  | guest => simp only [sectionRow, fields_guest hn, emit, if_neg hemit, List.map_nil]

/-! ## The sections of stage 3 -/

theorem sectionRow_global_stage3 : sectionRow (header (bytes "global"), globalLines) = [] := by
  decide +kernel

theorem sectionRow_public : sectionRow (header (bytes "public"), publicLines) =
    [bytes "public" ++ tab :: ShareType.description .guest []] := by decide +kernel

theorem sectionRow_alpha : sectionRow (header alpha, alphaLines) =
    [alpha ++ tab :: ShareType.description .priv alpha] := by decide +kernel

end Panel
