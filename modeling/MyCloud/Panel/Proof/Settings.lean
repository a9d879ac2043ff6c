import MyCloud.Panel.Proof.Listing

/-!
# A section's own settings

`share-list` is compared with `ownRow`: the name of a section and the description of the four values
found in its own lines.

* `lineFields_eq`: the variables of the `awk` pass after a section, from its lines.
* `writers_awkWrite`: its write list against the section's own.
* `sectionRow_own_iff`: when the row of one section is its own.
* `share_list_own_iff`: the listing has the own row of each section iff each name is plain and each
  section has valid users and no other write list in them, or is open to guests without a write list
  that counts.
-/

set_option autoImplicit false

namespace Panel

open Shell

/-! ## The values of a section -/

/-- A line `key = yes`. -/
def saysYes (key : Bytes) (l : Line) : Bool :=
  match stripKey key l with
  | some v => decide (bytes "yes" <+: v)
  | none => false

/-- `yes` if a line says so. -/
def flag (key : Bytes) (ls : List Line) : Bytes :=
  if ls.any (saysYes key) then bytes "yes" else bytes "no"

/-- The last value of a list of names, empty if there is none. -/
def names (key : Bytes) (ls : List Line) : Bytes := (param key ls).getD []

def ownDescription (ls : List Line) : Bytes :=
  describe (flag (bytes "guest ok") ls) (names (bytes "valid users") ls)
    (flag (bytes "read only") ls) (names (bytes "write list") ls)

/-- The name in a header `[name]`. -/
def headerName (l : Line) : Bytes := l.tail.dropLast

theorem headerName_header (n : Bytes) : headerName (header n) = n := by
  simp [headerName, header_eq]

/-- The row of a section by its own values; `global` has none. -/
def ownRow (s : Line × List Line) : List Line :=
  if s.1 = header (bytes "global") then []
  else [headerName s.1 ++ tab :: ownDescription s.2]

/-! ## The `awk` variables -/

/-- What the rule for `write list` finds: the rule before it may have cut the line. -/
def writeRule (l : Line) : Option Bytes :=
  stripKey (bytes "write list") ((stripKey (bytes "valid users") l).getD l)

/-- The write list as the `awk` pass has it after the lines of a section. -/
def awkWrite (ls : List Line) : Bytes := ((ls.filterMap writeRule).getLast?).getD []

theorem flag_snoc (key : Bytes) (ls : List Line) (l : Line) :
    flag key (ls ++ [l]) = if saysYes key l then bytes "yes" else flag key ls := by
  simp only [flag, List.any_append, List.any_cons, List.any_nil, Bool.or_false, Bool.or_eq_true]
  cases saysYes key l <;> simp

/-- The last value found, after one more line. -/
theorem last_snoc (f : Line → Option Bytes) (ls : List Line) (l : Line) :
    ((ls ++ [l]).filterMap f).getLast?.getD [] =
      (f l).getD ((ls.filterMap f).getLast?.getD []) := by
  rw [List.filterMap_append]
  cases h : f l <;> simp [h]

theorem awkLine_fields {l : Line} (hl : isHeader l = false) (f : Fields) :
    (awkLine f l).2 =
      ⟨f.n, if saysYes (bytes "guest ok") l then bytes "yes" else f.g,
        (stripKey (bytes "valid users") l).getD f.vu,
        if saysYes (bytes "read only") l then bytes "yes" else f.ro, (writeRule l).getD f.wl⟩ := by
  have hg : guestRule l f =
      { f with g := if saysYes (bytes "guest ok") l then bytes "yes" else f.g } := by
    unfold guestRule saysYes
    cases stripKey (bytes "guest ok") l with
    | none => rfl
    | some v => by_cases h : bytes "yes" <+: v <;> simp [h]
  have hr : ∀ f, readOnlyRule l f =
      { f with ro := if saysYes (bytes "read only") l then bytes "yes" else f.ro } := fun f => by
    unfold readOnlyRule saysYes
    cases stripKey (bytes "read only") l with
    | none => rfl
    | some v => by_cases h : bytes "yes" <+: v <;> simp [h]
  have hv : ∀ f, validUsersRule l f = ((stripKey (bytes "valid users") l).getD l,
      { f with vu := (stripKey (bytes "valid users") l).getD f.vu }) := fun f => by
    unfold validUsersRule
    cases stripKey (bytes "valid users") l <;> rfl
  have hw : ∀ l f, writeListRule l f =
      { f with wl := (stripKey (bytes "write list") l).getD f.wl } := fun l f => by
    unfold writeListRule
    cases stripKey (bytes "write list") l <;> rfl
  simp only [awkLine, hl, hg, hr, hv, hw, writeRule, Bool.false_eq_true, if_false]

theorem lineFields_eq {h : Line} {ls : List Line} (hls : ∀ l ∈ ls, isHeader l = false) :
    lineFields (headerFields h) ls =
      ⟨unbracket h, flag (bytes "guest ok") ls, names (bytes "valid users") ls,
        flag (bytes "read only") ls, awkWrite ls⟩ := by
  induction ls using List.reverseRecOn with
  | nil => rfl
  | append_singleton ls l ih =>
    have ih := ih fun l hl => hls l (List.mem_append_left _ hl)
    have hl := hls l (by simp)
    have hstep : lineFields (headerFields h) (ls ++ [l]) =
        (awkLine (lineFields (headerFields h) ls) l).2 := by simp [lineFields]
    have hnames : names (bytes "valid users") (ls ++ [l]) =
        (stripKey (bytes "valid users") l).getD (names (bytes "valid users") ls) := last_snoc _ ls l
    have hwrite : awkWrite (ls ++ [l]) = (writeRule l).getD (awkWrite ls) := last_snoc _ ls l
    rw [hstep, ih, awkLine_fields hl, flag_snoc, flag_snoc, hnames, hwrite]

/-! ## Values without tabs -/

/-- The lists of names of the section contain no tab. -/
def TabFree (ls : List Line) : Prop :=
  ∀ l ∈ ls, ∀ key ∈ [bytes "valid users", bytes "write list"], ∀ v ∈ stripKey key l, tab ∉ v

instance (ls : List Line) : Decidable (TabFree ls) :=
  inferInstanceAs (Decidable (∀ l ∈ ls, ∀ key ∈ [_, _], ∀ v ∈ stripKey key l, tab ∉ v))

theorem stripKey_suffix {key l v : Bytes} (h : stripKey key l = some v) : v <:+ l := by
  unfold stripKey at h
  simp only at h
  split at h
  · split at h
    · rename_i c r hr
      split at h
      · cases h
        have hc : c :: r <:+ l := by
          rw [← hr]
          exact (List.dropWhile_suffix _).trans
            ((List.drop_suffix _ _).trans (List.dropWhile_suffix _))
        exact (List.dropWhile_suffix _).trans ((List.suffix_cons c r).trans hc)
      · cases h
    · cases h
  · cases h

theorem last_mem {f : Line → Option Bytes} {ls : List Line} {P : Bytes → Prop} (h0 : P [])
    (h : ∀ l ∈ ls, ∀ v, f l = some v → P v) : P (((ls.filterMap f).getLast?).getD []) := by
  cases hl : (ls.filterMap f).getLast? with
  | none => exact h0
  | some v =>
    obtain ⟨l, hm, hv⟩ := List.mem_filterMap.1 (List.mem_of_getLast? hl)
    exact h l hm v hv

section
variable {ls : List Line}

theorem TabFree.names (ht : TabFree ls) {key : Bytes}
    (hk : key ∈ [bytes "valid users", bytes "write list"]) : tab ∉ names key ls :=
  last_mem (P := (tab ∉ ·)) List.not_mem_nil fun l hl v hv => ht l hl key hk v hv

theorem TabFree.awkWrite (ht : TabFree ls) : tab ∉ awkWrite ls := by
  refine last_mem (P := (tab ∉ ·)) List.not_mem_nil fun l hl v hv => ?_
  unfold writeRule at hv
  cases hu : stripKey (bytes "valid users") l with
  | none =>
    rw [hu] at hv
    exact ht l hl _ (by decide) v hv
  | some u =>
    rw [hu] at hv
    exact fun hm => ht l hl _ (by decide) u hu ((stripKey_suffix hv).subset hm)

end

/-! ## The description in the listing -/

/-- The description `share-list` prints: of the fields that `read` delivers. -/
def shown (ls : List Line) : Bytes :=
  if names (bytes "valid users") ls ≠ [] then
    describe (flag (bytes "guest ok") ls) (names (bytes "valid users") ls)
      (flag (bytes "read only") ls) (awkWrite ls)
  else describe (flag (bytes "guest ok") ls) (flag (bytes "read only") ls) (awkWrite ls) []

/-- How a guest share that is read-only is described. -/
def writers (wl : Bytes) : Bytes := describe (bytes "yes") [] (bytes "yes") wl

/-- The value of a line `valid users = write list = value`. -/
def nested (l : Line) : Option Bytes :=
  (stripKey (bytes "valid users") l).bind (stripKey (bytes "write list"))

/-- The value of a line `valid users = write list = value` that has no line `write list = value`
behind it in the section. -/
def hidden (ls : List Line) : Option Bytes :=
  (ls.findRev? fun l => (stripKey (bytes "write list") l).isSome || (nested l).isSome).bind nested

/-- The fields come through. With valid users, a guest share that is read-only must not have
another write list hidden in a line of its valid users; without, the share is open to guests and no
write list counts. -/
def ReadsOwn (ls : List Line) : Prop :=
  if names (bytes "valid users") ls ≠ [] then
    flag (bytes "guest ok") ls = bytes "yes" → flag (bytes "read only") ls = bytes "yes" →
      ∀ v ∈ hidden ls, writers v = writers (names (bytes "write list") ls)
  else flag (bytes "guest ok") ls = bytes "yes" ∧
    ¬ (flag (bytes "read only") ls = bytes "yes" ∧ names (bytes "write list") ls ≠ [])

instance (ls : List Line) : Decidable (ReadsOwn ls) := by
  unfold ReadsOwn
  infer_instance

/-- A line `write list = value` is no line `valid users = value`. -/
theorem stripKey_excl {l v : Bytes} (h : stripKey (bytes "write list") l = some v) :
    stripKey (bytes "valid users") l = none := by
  unfold stripKey at h ⊢
  simp only at h ⊢
  split at h
  · rename_i hw
    refine if_neg fun hv => ?_
    rcases List.prefix_or_prefix_of_prefix hw hv with hp | hp
    · exact absurd hp (by decide)
    · exact absurd hp (by decide)
  · cases h

/-- The write list that the `awk` pass has is described as the last one of the section's own, but
for a hidden one. -/
theorem writers_awkWrite (ls : List Line) :
    writers (awkWrite ls) = writers (names (bytes "write list") ls) ↔
      ∀ v ∈ hidden ls, writers v = writers (names (bytes "write list") ls) := by
  induction ls using List.reverseRecOn with
  | nil => simp [awkWrite, names, param, hidden]
  | append_singleton ls l ih =>
    have hnames : names (bytes "write list") (ls ++ [l]) =
        (stripKey (bytes "write list") l).getD (names (bytes "write list") ls) := last_snoc _ ls l
    have hawk : awkWrite (ls ++ [l]) = (writeRule l).getD (awkWrite ls) := last_snoc _ ls l
    rw [hnames, hawk, hidden, List.findRev?_eq_find?_reverse, List.reverse_append,
      List.reverse_singleton, List.singleton_append, List.find?_cons]
    cases hw : stripKey (bytes "write list") l with
    | some v =>
      have hr : writeRule l = some v := by rw [writeRule, stripKey_excl hw, Option.getD_none, hw]
      have hn : nested l = none := by rw [nested, stripKey_excl hw, Option.bind_none]
      simp [hr, hn]
    | none =>
      have hr : writeRule l = nested l := by
        unfold writeRule nested
        cases stripKey (bytes "valid users") l with
        | none => exact hw
        | some u => rfl
      rw [hr]
      cases hn : nested l with
      | some v => simp [hn]
      | none =>
        rw [hidden, List.findRev?_eq_find?_reverse] at ih
        simpa using ih

theorem flag_eq (key : Bytes) (ls : List Line) :
    flag key ls = bytes "yes" ∨ flag key ls = bytes "no" := by
  unfold flag
  split
  · exact .inl rfl
  · exact .inr rfl

theorem flag_field (key : Bytes) (ls : List Line) : flag key ls ≠ [] ∧ tab ∉ flag key ls := by
  rcases flag_eq key ls with h | h <;> rw [h] <;> decide

theorem describe_guest (vu ro wl : Bytes) :
    describe (bytes "yes") vu ro wl =
      if ro = bytes "yes" ∧ wl ≠ [] then
        bytes "read: anyone · write: " ++ replaceFirst (bytes "@users") (bytes "all users") wl
      else bytes "anyone on the network (guest, no password)" := by
  unfold describe
  by_cases h : ro = bytes "yes" ∧ wl ≠ []
  · rw [if_pos ⟨rfl, h⟩, if_pos h]
  · rw [if_neg fun h' => h h'.2, if_neg h, if_pos rfl]

/-- A share that is not for guests is described by its valid users alone. -/
theorem describe_users {g : Bytes} (hg : g ≠ bytes "yes") (vu ro wl : Bytes) :
    describe g vu ro wl = describe (bytes "no") vu [] [] := by
  have hno : bytes "no" ≠ bytes "yes" := by decide
  simp only [describe, hg, hno, false_and, if_false]

theorem writers_ne (x : Bytes) :
    bytes "read: anyone · write: " ++ x ≠ bytes "anyone on the network (guest, no password)" := by
  intro h
  have hh := congrArg List.head? h
  rw [List.head?_append_of_ne_nil _ (by decide)] at hh
  revert hh
  decide

theorem shown_iff (ls : List Line) : shown ls = ownDescription ls ↔ ReadsOwn ls := by
  have hno : bytes "no" ≠ bytes "yes" := by decide
  unfold shown ownDescription ReadsOwn
  rw [← writers_awkWrite]
  unfold writers
  generalize names (bytes "valid users") ls = vu
  generalize names (bytes "write list") ls = wl
  generalize awkWrite ls = awl
  rcases flag_eq (bytes "guest ok") ls with hg | hg
  · rw [hg]
    simp only [describe_guest]
    by_cases hv : vu = []
    · simp only [hv, ne_eq, not_true_eq_false, and_false, if_false, true_and]
      split
      · rename_i hw
        exact iff_of_false (writers_ne _).symm fun h => h hw
      · rename_i hw
        exact iff_of_true rfl hw
    · simp only [ne_eq, hv, not_false_eq_true, if_true, true_imp_iff]
      by_cases hr : flag (bytes "read only") ls = bytes "yes" <;> simp [hr]
  · rw [hg]
    simp only [describe_users hno, hno, false_imp_iff, false_and]
    by_cases hv : vu = []
    · rw [if_neg (not_not.2 hv), if_neg (not_not.2 hv), hv]
      rcases flag_eq (bytes "read only") ls with hr | hr <;> rw [hr] <;> decide
    · rw [if_pos hv, if_pos hv]
      exact iff_of_true rfl trivial

/-! ## The row of a section -/

/-- A name that the listing can show. -/
def Listable (n : Bytes) : Prop := n ≠ [] ∧ '['.toUInt8 ∉ n ∧ tab ∉ n

instance (n : Bytes) : Decidable (Listable n) := inferInstanceAs (Decidable (_ ∧ _ ∧ _))

/-- The record of a section, before the shell reads it. -/
def record (n : Bytes) (ls : List Line) : Line :=
  n ++ tab :: (flag (bytes "guest ok") ls ++ tab :: (names (bytes "valid users") ls ++ tab ::
    (flag (bytes "read only") ls ++ tab :: awkWrite ls)))

section
variable {n : Bytes} {ls : List Line}

theorem sectionRow_eq (hn : ']'.toUInt8 ∉ n) (hls : ∀ l ∈ ls, isHeader l = false) :
    sectionRow (header n, ls) =
      if n.filter (· ≠ '['.toUInt8) ≠ [] ∧ n.filter (· ≠ '['.toUInt8) ≠ bytes "global" then
        [listLine (record (n.filter (· ≠ '['.toUInt8)) ls)]
      else [] := by
  rw [sectionRow, lineFields_eq hls, unbracket_exact hn, emit]
  split <;> rfl

theorem listLine_record (hn : n ≠ [] ∧ tab ∉ n) (ht : TabFree ls) :
    listLine (record n ls) = n ++ tab :: shown ls := by
  unfold listLine record shown
  by_cases hv : names (bytes "valid users") ls = []
  · rw [hv, List.nil_append,
      readTab_row_empty hn (flag_field _ ls) (flag_field _ ls) ht.awkWrite]
    rfl
  · rw [readTab_row hn (flag_field _ ls) ⟨hv, ht.names (by decide)⟩ (flag_field _ ls) ht.awkWrite,
      if_pos hv]
    rfl

theorem tab_notMem_ownerOf {vu : Bytes} (h : tab ∉ vu) : tab ∉ ownerOf vu := by
  unfold ownerOf
  intro hm
  cases hf : (records nl ((vu ++ [nl]).map fun c => if c = space then nl else c)).filter
    fun l => l.head? ≠ some '@'.toUInt8 with
  | nil => rw [hf] at hm; cases hm
  | cons l ls =>
    rw [hf, List.headD_cons] at hm
    have hl := List.mem_of_mem_filter (hf ▸ List.mem_cons_self : l ∈ _)
    obtain ⟨c, hc, he⟩ := List.mem_map.1 (mem_of_mem_records hl hm)
    split at he
    · exact absurd he (by decide)
    · subst he
      rcases List.mem_append.1 hc with hc | hc
      · exact h hc
      · exact absurd (List.mem_singleton.1 hc) (by decide)

/-- A description with a tab is of a guest share that is read-only. -/
theorem describe_tab {g vu ro wl : Bytes} (hv : tab ∉ vu) (h : tab ∈ describe g vu ro wl) :
    g = bytes "yes" ∧ (describe g vu ro wl).head? = some 'r'.toUInt8 := by
  by_cases hg : g = bytes "yes"
  · refine ⟨hg, ?_⟩
    rw [hg, describe_guest] at h ⊢
    split at h
    · rename_i hw
      rw [if_pos hw, List.head?_append_of_ne_nil _ (by decide)]
      decide
    · exact absurd h (by decide)
  · rw [describe_users hg] at h
    unfold describe at h
    have hno : bytes "no" ≠ bytes "yes" := by decide
    simp only [hno, false_and, if_false] at h
    split_ifs at h
    · exact absurd h (by decide)
    · rcases List.mem_append.1 h with h | h
      · exact absurd h (tab_notMem_ownerOf hv)
      · exact absurd h (by decide)
    · exact absurd h (by decide)
    · exact absurd h hv
    · exact absurd h (by decide)

/-- The fields of a record whose name part has a tab: the first is what stands before the tab, and
then the second begins as what stands behind it, or the first does. -/
theorem readTab_split {a : Bytes} (ha : tab ∉ a) {c : UInt8} (hc : c ≠ tab) (t : Bytes) :
    let r := readTab 5 (a ++ tab :: c :: t)
    (a ≠ [] ∧ r.getD 0 [] = a ∧ (r.getD 1 []).head? = some c) ∨
      (a = [] ∧ (r.getD 0 []).head? = some c) := by
  by_cases hne : a = []
  · refine .inr ⟨hne, ?_⟩
    rw [hne, List.nil_append, readTab_tab]
    simp [readTab, hc]
  · refine .inl ⟨hne, ?_⟩
    rw [readTab_field hne ha, readTab_tab]
    simp [readTab, hc]

theorem tab_notMem_field {k i : ℕ} (hi : i < k) (l : Bytes) :
    tab ∉ (readTab (k + 1) l).getD i [] := by
  induction k generalizing i l with
  | zero => omega
  | succ k ih =>
    rw [readTab]
    cases i with
    | zero =>
      intro h
      have := List.mem_takeWhile_imp (l := l.dropWhile (· = tab)) h
      simp at this
    | succ i => exact ih (by omega) _

/-- The row of a name that is not listable is not the section's own. -/
theorem sectionRow_unlistable (hc : ']'.toUInt8 ∉ n) (hls : ∀ l ∈ ls, isHeader l = false)
    (ht : TabFree ls) (hn : ¬ Listable n) (d : Bytes) :
    sectionRow (header n, ls) ≠ [n ++ tab :: d] := by
  intro h
  rw [sectionRow_eq hc hls] at h
  split at h
  swap
  · cases h
  rename_i hm
  replace h := (List.cons.inj h).1
  by_cases htab : tab ∈ n
  · -- the row has a tab too many: it would have to come from the description of a write list
    obtain ⟨a, b, rfl, ha⟩ := List.eq_append_cons_of_mem htab
    rw [List.append_assoc, List.cons_append] at h
    obtain ⟨hfirst, hdesc⟩ := append_sep_inj (tab_notMem_field (by decide) _) ha h
    have htd : tab ∈ b ++ tab :: d := by simp
    rw [← hdesc] at htd
    obtain ⟨hg, hr⟩ := describe_tab (tab_notMem_field (by decide) _) htd
    rw [hdesc] at hr
    cases b with
    | nil => exact absurd (Option.some.inj hr) (by decide)
    | cons c b =>
      obtain rfl : c = 'r'.toUInt8 := Option.some.inj hr
      have hrec : record ((a ++ tab :: 'r'.toUInt8 :: b).filter (· ≠ '['.toUInt8)) ls =
          a.filter (· ≠ '['.toUInt8) ++ tab :: 'r'.toUInt8 :: (b.filter (· ≠ '['.toUInt8) ++ tab ::
            (flag (bytes "guest ok") ls ++ tab :: (names (bytes "valid users") ls ++ tab ::
              (flag (bytes "read only") ls ++ tab :: awkWrite ls)))) := by
        rw [List.filter_append, List.filter_cons_of_pos (by decide),
          List.filter_cons_of_pos (by decide), record]
        simp only [List.append_assoc, List.cons_append]
      have ha' : tab ∉ a.filter (· ≠ '['.toUInt8) := fun h => ha (List.mem_of_mem_filter h)
      rw [hrec] at hfirst hg
      rcases readTab_split ha' (show 'r'.toUInt8 ≠ tab by decide) _ with ⟨-, -, h1⟩ | ⟨h0, h1⟩
      · rw [hg] at h1
        exact absurd h1 (by decide)
      · rw [hfirst] at h1
        have hm : 'r'.toUInt8 ∈ a.filter (· ≠ '['.toUInt8) :=
          List.mem_filter.2 ⟨List.mem_of_head? h1, by decide⟩
        rw [h0] at hm
        cases hm
  · have htm : tab ∉ n.filter (· ≠ '['.toUInt8) := fun h => htab (List.mem_of_mem_filter h)
    rw [listLine_record ⟨hm.1, htm⟩ ht] at h
    obtain ⟨he, -⟩ := append_sep_inj htm htab h
    refine hn ⟨fun h0 => hm.1 (by rw [h0]; rfl), fun hb => ?_, htab⟩
    rw [← he] at hb
    exact absurd (List.of_mem_filter hb) (by decide)

/-- **The row of a section is its own iff** its name can be listed and its fields come through. -/
theorem sectionRow_own_iff (hc : ']'.toUInt8 ∉ n) (hg : n ≠ bytes "global")
    (hls : ∀ l ∈ ls, isHeader l = false) (ht : TabFree ls) :
    sectionRow (header n, ls) = ownRow (header n, ls) ↔ Listable n ∧ ReadsOwn ls := by
  rw [ownRow, if_neg fun h => hg (header_inj.1 h), headerName_header]
  by_cases hn : Listable n
  · have hf : n.filter (· ≠ '['.toUInt8) = n :=
      List.filter_eq_self.2 fun c hc => decide_eq_true fun he : c = _ => hn.2.1 (he ▸ hc)
    rw [sectionRow_eq hc hls, hf, if_pos ⟨hn.1, hg⟩, listLine_record ⟨hn.1, hn.2.2⟩ ht, ← shown_iff]
    simp [hn]
  · exact iff_of_false (sectionRow_unlistable hc hls ht hn _) fun h => hn h.1

theorem sectionRow_length (s : Line × List Line) : (sectionRow s).length ≤ 1 := by
  rw [sectionRow, List.length_map, emit]
  split <;> simp

end

/-! ## The listing -/

section
variable {α β : Type} {f g : α → List β} {l : List α}

theorem length_flatMap_le (h : ∀ a ∈ l, (f a).length ≤ (g a).length) :
    (l.flatMap f).length ≤ (l.flatMap g).length := by
  induction l with
  | nil => exact le_refl _
  | cons a l ih =>
    have := ih fun b hb => h b (List.mem_cons_of_mem _ hb)
    have := h a List.mem_cons_self
    simp only [List.flatMap_cons, List.length_append]
    omega

/-- Concatenated pieces that are no longer on the left are equal only piece by piece. -/
theorem flatMap_eq_iff (h : ∀ a ∈ l, (f a).length ≤ (g a).length) :
    l.flatMap f = l.flatMap g ↔ ∀ a ∈ l, f a = g a := by
  induction l with
  | nil => simp
  | cons a l ih =>
    have htail : ∀ b ∈ l, (f b).length ≤ (g b).length := fun b hb => h b (List.mem_cons_of_mem _ hb)
    have ih := ih htail
    rw [List.flatMap_cons, List.flatMap_cons, List.forall_mem_cons, ← ih]
    refine ⟨fun he => ?_, fun ⟨h1, h2⟩ => by rw [h1, h2]⟩
    have hlen := congrArg List.length he
    have hl := length_flatMap_le htail
    have ha := h a List.mem_cons_self
    rw [List.length_append, List.length_append] at hlen
    exact List.append_inj he (by omega)

end

/-- The rows of the sections by their own values. -/
def ownRows (t : Bytes) : List Line := (sections t).flatMap ownRow

theorem sections_items {t : Bytes} {s : Line × List Line} (hs : s ∈ sections t) :
    ∀ l ∈ s.2, isHeader l = false := by
  obtain ⟨r, hr, rfl⟩ := List.mem_map.1 hs
  exact fun l hl => body_item hr ((List.rdropWhile_prefix _ _).subset hl)

theorem sectionRow_global_exact {ls : List Line} (hls : ∀ l ∈ ls, isHeader l = false) :
    sectionRow (header (bytes "global"), ls) = [] := by
  rw [sectionRow_eq (by decide) hls]
  exact if_neg fun h => h.2 (by decide)

theorem listLines_own_iff {t : Bytes} (hx : ExactHeaders t) (ht : ∀ s ∈ sections t, TabFree s.2) :
    listLines t = ownRows t ↔ ∀ s ∈ sections t, s.1 ≠ header (bytes "global") →
      Listable (headerName s.1) ∧ ReadsOwn s.2 := by
  have hlen : ∀ s ∈ sections t, (sectionRow s).length ≤ (ownRow s).length := by
    intro s hs
    by_cases hg : s.1 = header (bytes "global")
    · obtain ⟨h, ls⟩ := s
      subst hg
      rw [sectionRow_global_exact (sections_items hs)]
      exact Nat.zero_le _
    · rw [ownRow, if_neg hg]
      exact sectionRow_length s
  rw [listLines_eq, ownRows, flatMap_eq_iff hlen]
  refine forall₂_congr fun s hs => ?_
  obtain ⟨n, hn, hs1⟩ := exactHeaders_iff.1 hx s hs
  obtain ⟨h, ls⟩ := s
  subst hs1
  have hls := sections_items hs
  by_cases hg : n = bytes "global"
  · subst hg
    rw [sectionRow_global_exact hls, ownRow, if_pos rfl]
    simp
  · have hne : header n ≠ header (bytes "global") := fun h => hg (header_inj.1 h)
    rw [sectionRow_own_iff hn hg hls (ht _ hs), headerName_header]
    exact ⟨fun h _ => h, fun h => h hne⟩

/-- **`share-list` describes every section by its own settings iff** each section other than `global`
has a name without `[` and tab and not empty, and fields that come through. -/
theorem share_list_own_iff {e : Env} (he : e.outcome .readConf = .ok) {w : World}
    (hx : ExactHeaders w.smb) (ht : ∀ s ∈ sections w.smb, TabFree s.2) (args : List Bytes)
    (stdin : Bytes) :
    (⟨.shareList, args, stdin⟩ : Call).exec e w = (.ok (unlines (listLines w.smb)), w) ∧
      (listLines w.smb = ownRows w.smb ↔ ∀ s ∈ sections w.smb, s.1 ≠ header (bytes "global") →
        Listable (headerName s.1) ∧ ReadsOwn s.2) :=
  ⟨share_list_exec he args stdin w, listLines_own_iff hx ht⟩

/-- The box as built has such sections. -/
theorem share_list_own_stage3 :
    listLines (stage3World ∅).smb = ownRows (stage3World ∅).smb := by
  have ht : ∀ s ∈ sections stage3Conf, TabFree s.2 := by
    rw [sections_stage3]
    decide
  have hc : ∀ s ∈ sections stage3Conf, s.1 ≠ header (bytes "global") →
      Listable (headerName s.1) ∧ ReadsOwn s.2 := by
    rw [sections_stage3]
    decide
  have hx : ExactHeaders (stage3World ∅).smb := exactHeaders_stage3
  exact (share_list_own_iff (succeeds_allOk _) hx ht [] []).2.2 hc

/-- A guest share with a write list, and a share that is open to every user. -/
def oddConf : Bytes := bytes
  "[global]
   workgroup = WORKGROUP

[music]
   path = /srv/nas/music
   read only = yes
   guest ok = yes
   write list = @users

[attic]
   path = /srv/nas/attic
   read only = no
"

/-- Both are described wrongly: the write list is lost, and the other gets the value of `read only`. -/
theorem share_list_odd :
    ExactHeaders oddConf ∧ (∀ s ∈ sections oddConf, TabFree s.2) ∧
      listLines oddConf =
        [bytes "music\tanyone on the network (guest, no password)", bytes "attic\tno"] ∧
      ownRows oddConf =
        [bytes "music\tread: anyone · write: all users", bytes "attic\tany signed-in user"] := by
  refine ⟨?_, by decide +kernel, by decide +kernel, by decide +kernel⟩
  have hs : (sections oddConf).map (·.1) =
      [header (bytes "global"), header (bytes "music"), header (bytes "attic")] := by decide +kernel
  rw [exactHeaders_iff]
  intro s hm
  have hm := List.mem_map_of_mem (f := Prod.fst) hm
  rw [hs] at hm
  simp only [List.mem_cons, List.not_mem_nil, or_false] at hm
  rcases hm with h | h | h
  · exact ⟨bytes "global", by decide, h⟩
  · exact ⟨bytes "music", by decide, h⟩
  · exact ⟨bytes "attic", by decide, h⟩

end Panel
