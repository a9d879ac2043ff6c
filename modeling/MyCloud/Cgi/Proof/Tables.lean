import MyCloud.Cgi.Proof.Form
import MyCloud.Cgi.Tables
import MyCloud.Panel.Proof.Access
import MyCloud.Web.Html
import MyCloud.Wire.Search

/-!
# What the pages with tables show

* `goes_value`: a hidden field keeps its value.
* `shareRow_shows`, `userRow_shows`: what a browser reads of a row.
* `shares_page_shows`, `users_page_shows`: **whatever is sent, a page shows the reply as it is, and the
  forms of the shares or users that there are.**
-/

set_option autoImplicit false

namespace Cgi

open Shell Panel Html

/-- The document of an answer, behind the header. -/
def document (t : Bytes) : Bytes := ((Wire.cut (bytes "\r\n\r\n") t).map (·.2)).getD []

theorem document_page (t : Bytes) : document (http_header ++ t) = t := by
  have h : http_header =
      bytes "Content-Type: text/html; charset=utf-8" ++ bytes "\r\n\r\n" := by decide
  have hclear : Wire.Clear (bytes "\r\n\r\n") (bytes "Content-Type: text/html; charset=utf-8") :=
    Wire.clear_of_notMem (show (13 : UInt8) ∉ _ by decide)
  rw [document, h, List.append_assoc, Wire.cut_clear_append hclear]
  rfl

/-! ## Escaped texts -/

theorem esc_eq (t : Bytes) : esc t = escape t := by
  unfold esc sedAll escape
  rw [List.flatMap_assoc, List.flatMap_assoc]
  refine List.flatMap_congr fun c _ => ?_
  by_cases h1 : c = amp
  · subst h1
    decide
  · by_cases h2 : c = lt
    · subst h2
      decide
    · by_cases h3 : c = gt
      · subst h3
        decide
      · simp [h1, h2, h3, show '&'.toUInt8 = amp from rfl, show '<'.toUInt8 = lt from rfl,
          show '>'.toUInt8 = gt from rfl]

theorem getLast?_subst (t : Bytes) : (subst t).getLast? ≠ some nl := by
  intro h
  have hne : subst t ≠ [] := by
    rintro h0
    rw [h0] at h
    cases h
  rw [List.getLast?_eq_some_getLast hne] at h
  have hlast := List.rdropWhile_last_not (fun c => decide (c = nl)) (t.filter (· ≠ 0)) hne
  exact hlast (decide_eq_true (Option.some.inj h))

/-- An escaped text is captured as it is. -/
theorem subst_esc {t : Bytes} (h0 : 0 ∉ t) (hl : t.getLast? ≠ some nl) :
    subst (esc t) = escape t := by
  rw [esc_eq]
  refine subst_eq (fun h => ?_) fun h => ?_
  · obtain ⟨c, hc, h⟩ := List.mem_flatMap.1 h
    split_ifs at h
    · exact absurd h (by decide)
    · exact absurd h (by decide)
    · exact absurd h (by decide)
    · exact h0 (List.mem_singleton.1 h ▸ hc)
  · cases t using List.reverseRecOn with
    | nil => cases h
    | append_singleton t c =>
      rw [escape, List.flatMap_append, List.flatMap_singleton] at h
      have hne : c ≠ nl := fun hc => hl (by rw [hc, List.getLast?_concat])
      split_ifs at h
      · rw [List.getLast?_append_of_ne_nil _ (by decide)] at h
        exact absurd h (by decide)
      · rw [List.getLast?_append_of_ne_nil _ (by decide)] at h
        exact absurd h (by decide)
      · rw [List.getLast?_append_of_ne_nil _ (by decide)] at h
        exact absurd h (by decide)
      · rw [List.getLast?_concat] at h
        exact hne (Option.some.inj h)

/-! ## Pieces of a page -/

/-- A fixed text, read by evaluation. -/
theorem goes_fixed {n : String} {v v' : View} {t : Bytes} {fs : List Form} {xs : List Bytes}
    (h : (fun r : State × List Token => r.1 = v'.lexer ∧ scan formStep v.form r.2 = (v'.form, fs) ∧
      scan (textStep (bytes n)) v.text r.2 = (v'.text, xs)) (scan lex v.lexer t)) :
    Goes n v t fs xs v' :=
  ⟨_, Prod.ext h.1 rfl, h.2.1, h.2.2⟩

theorem page_top_shows {title : Bytes} (h : Plain title) : Shows "b" (page_top title) [] [] := by
  have hhead : Shows "b" (unlines [bytes "<!doctype html><html><head><meta charset=\"utf-8\">",
      bytes "<meta name=\"viewport\" content=\"width=device-width,initial-scale=1\">"] ++
      bytes "<title>") [] [] := goes_fixed (by decide +kernel)
  have hbody : Shows "b" (bytes " — CLIO</title>\n" ++ unlines (styleLines ++
      [bytes ("<nav><a href=\"/\">Status</a><a href=\"/users.cgi\">Users</a>" ++
        "<a href=\"/shares.cgi\">Shares</a><a href=\"/smart.cgi\">Disk</a>" ++
        "<a href=\"/power.cgi\">Power</a></nav>")]) ++ bytes "<h1>") [] [] :=
    goes_fixed (by decide +kernel)
  have hend : Shows "b" (bytes "</h1>\n") [] [] := goes_fixed (by decide +kernel)
  have htitle := goes_outside (lex_plain h) "b" none
  have hall := (((hhead.trans htitle).trans hbody).trans htitle).trans hend
  have h1 : bytes " — CLIO</title>\n" = bytes " — CLIO</title>" ++ [nl] := by decide
  have h2 : bytes "</h1>\n" = bytes "</h1>" ++ [nl] := by decide
  rw [h1, h2] at hall
  simpa [page_top, unlines] using hall

theorem page_end_shows : Shows "b" page_end [] [] :=
  goes_fixed (by decide +kernel)

/-- The end of a bold text. -/
theorem goes_close {t : Bytes} {ts : List Token} (h : scan lex .data t = (.data, ts))
    (hf : scan formStep none ts = (none, []))
    (hb : ∃ us, ts = .endTag (bytes "b") :: us ∧ scan (textStep (bytes "b")) none us = (none, []))
    (x : Bytes) : Goes "b" ⟨.data, none, some x⟩ t [] [x] .start := by
  obtain ⟨us, rfl, hb⟩ := hb
  refine ⟨_, h, hf, ?_⟩
  rw [scan, textStep, if_pos rfl, hb]
  rfl

/-- The reply stands in the page as it is. -/
theorem messageLine_shows {x : Bytes} (h0 : 0 ∉ x) (hl : x.getLast? ≠ some nl) :
    Shows "b" (messageLine (subst (esc x))) [] (if x = [] then [] else [x]) := by
  rw [subst_esc h0 hl]
  unfold messageLine
  by_cases hx : x = []
  · subst hx
    exact .nil
  · have hne : escape x ≠ [] := by
      intro h
      have := lex_escape x
      rw [h] at this
      exact hx (List.map_eq_nil_iff.1 (Prod.ext_iff.1 this).2.symm)
    rw [if_neg hne, if_neg hx]
    have h1 : Goes "b" .start (bytes "<p><b>") [] [] ⟨.data, none, some []⟩ :=
      goes_fixed (by decide +kernel)
    have h2 := goes_inside (lex_escape x) "b" none []
    have h3 := goes_close (t := bytes "</b></p>\n") rfl (by decide) ⟨_, rfl, by decide⟩ x
    simpa using (h1.trans h2).trans h3

/-- What may stand as a value without quotes. -/
def Value (t : Bytes) : Prop := t ≠ [] ∧ ∀ c ∈ t, c ≠ gt ∧ isSpace c = false ∧ c ≠ quot ∧ c ≠ apos

instance (t : Bytes) : Decidable (Value t) := inferInstanceAs (Decidable (_ ∧ ∀ c ∈ t, _))

/-- A hidden field keeps its value. -/
theorem goes_value {a : Bytes} (ha : Value a) (m name : Bytes) (hname : name ≠ []) (cs : List Control) :
    Goes "b" ⟨.beforeValue (bytes "input") [(bytes "type", bytes "hidden"), (bytes "name", name)]
        (bytes "value"), some ⟨m, cs⟩, none⟩
      (a ++ [gt]) [] [] ⟨.data, some ⟨m, cs ++ [.hidden name a]⟩, none⟩ := by
  obtain ⟨hne, hch⟩ := ha
  obtain ⟨c, t, rfl⟩ := List.exists_cons_of_ne_nil hne
  refine ⟨_, lex_value (fun d hd => ⟨(hch d hd).1, (hch d hd).2.1⟩) (c := c) rfl
    (hch c List.mem_cons_self).2.2 _ _ _, ?_, rfl⟩
  have hc : control [(bytes "type", bytes "hidden"), (bytes "name", name), (bytes "value", c :: t)] =
      [.hidden name (c :: t)] := by
    have h1 : attr [(bytes "type", bytes "hidden"), (bytes "name", name),
      (bytes "value", c :: t)] "name" = name := rfl
    have h2 : attr [(bytes "type", bytes "hidden"), (bytes "name", name),
      (bytes "value", c :: t)] "type" = bytes "hidden" := rfl
    have h3 : attr [(bytes "type", bytes "hidden"), (bytes "name", name),
      (bytes "value", c :: t)] "value" = c :: t := rfl
    have h4 : ¬ (name = [] ∨ bytes "hidden" = bytes "submit") := not_or.2 ⟨hname, by decide⟩
    unfold Html.control
    rw [h1, h2, h3]
    exact (if_neg h4).trans (if_pos rfl)
  show scan formStep (some ⟨m, cs⟩) [.tag (bytes "input") _] = _
  rw [scan, scan, formStep, if_pos rfl, List.cons_append, List.cons_append, List.nil_append, hc]
  rfl

/-- The rest of a form whose fields so far are `cs`. -/
theorem goes_controls {t : Bytes} {ts : List Token} (h : scan lex .data t = (.data, ts))
    (hb : scan (textStep (bytes "b")) none ts = (none, [])) {m : Bytes} {cs : List Control}
    {fs : List Form} (hf : scan formStep (some ⟨m, cs⟩) ts = (none, fs)) :
    Goes "b" ⟨.data, some ⟨m, cs⟩, none⟩ t fs [] .start := ⟨_, h, hf, hb⟩

/-- A form of a row: its action, whom it is about, and its other controls. -/
def actionForm (action n : Bytes) (cs : List Control) : Form :=
  ⟨bytes "post", .hidden (bytes "action") action :: .hidden (bytes "name") n :: cs⟩

/-! ## Shares -/

def removeForm (s : Bytes) : Form := actionForm (bytes "del") s [.checkbox (bytes "confirm")]

def addShareForm : Form :=
  ⟨bytes "post", [.hidden (bytes "action") (bytes "add"), .text (bytes "name"),
    .select (bytes "type") (["family", "private", "guest"].map bytes), .text (bytes "owner")]⟩

/-- **A row shows its share, with a form that removes it unless the page protects it.** -/
theorem shareRow_shows {s acc : Bytes} (hs : Value s) (hp : Plain s) (h0 : 0 ∉ acc)
    (hl : acc.getLast? ≠ some nl) :
    Shows "b" (shareRow (s, acc)) (if is_protected s then [] else [removeForm s])
      [bytes "\\\\CLIO\\" ++ s] := by
  have hname : Goes "b" .start (bytes "<tr><td><b>\\\\CLIO\\") [] []
      ⟨.data, none, some (bytes "\\\\CLIO\\")⟩ :=
    goes_fixed (by decide +kernel)
  have hcell := goes_close (t := bytes "</b></td><td>") rfl (by decide) ⟨_, rfl, by decide⟩
    (bytes "\\\\CLIO\\" ++ s)
  have htext := (hname.trans (goes_inside (lex_plain hp) "b" none _)).trans hcell
  have hend : Shows "b" (bytes "</td>\n") [] [] := goes_fixed (by decide +kernel)
  have hcells := (htext.trans (goes_outside (lex_escape acc) "b" none)).trans hend
  have hlast : Shows "b" (bytes "</tr>\n") [] [] := goes_fixed (by decide +kernel)
  unfold shareRow
  dsimp only
  rw [subst_esc h0 hl]
  split
  · have hno : Shows "b" (bytes "<td><small>(protected)</small></td>\n") [] [] :=
      goes_fixed (by decide +kernel)
    simpa using (hcells.trans hno).trans hlast
  · have hopen : Goes "b" .start (bytes ("<td><form class=inline method=post>" ++
        "<input type=hidden name=action value=del><input type=hidden name=name value=")) [] []
        ⟨.beforeValue (bytes "input") [(bytes "type", bytes "hidden"), (bytes "name", bytes "name")]
          (bytes "value"), some ⟨bytes "post", [.hidden (bytes "action") (bytes "del")]⟩, none⟩ :=
      goes_fixed (by decide +kernel)
    have hclose : Goes "b" ⟨.data, some ⟨bytes "post", [.hidden (bytes "action") (bytes "del"),
        .hidden (bytes "name") s]⟩, none⟩ (bytes ("<label><input type=checkbox name=confirm> " ++
        "confirm</label> <input class=danger type=submit value=Remove></form></td>\n"))
        [removeForm s] [] .start :=
      goes_controls (Prod.ext rfl rfl) (by decide +kernel) rfl
    have hform := (hopen.trans (goes_value hs _ (bytes "name") (by decide) _)).trans hclose
    have hall := (hcells.trans hform).trans hlast
    have hsplit : bytes ("><label><input type=checkbox name=confirm> confirm</label> " ++
        "<input class=danger type=submit value=Remove></form></td>\n") = [gt] ++
        bytes ("<label><input type=checkbox name=confirm> " ++
        "confirm</label> <input class=danger type=submit value=Remove></form></td>\n") := by
      decide +kernel
    rw [hsplit]
    simpa using hall

theorem addShare_shows : Shows "b" addShare [addShareForm] [] :=
  goes_fixed (by decide +kernel)

/-- A row that `read` has made of a line with a name and a description. -/
structure TidyRow (row : Bytes × Bytes) : Prop where
  value : Value row.1
  plain : Plain row.1
  zero : 0 ∉ row.2
  last : row.2.getLast? ≠ some nl

theorem forms_of_rows (rows : List (Bytes × Bytes)) :
    (rows.flatMap fun row => if is_protected row.1 then [] else [removeForm row.1]) =
      ((rows.map (·.1)).filter fun s => !is_protected s).map removeForm := by
  induction rows with
  | nil => rfl
  | cons row rows ih =>
    rw [List.flatMap_cons, ih, List.map_cons, List.filter_cons]
    cases is_protected row.1 <;> rfl

theorem shares_body_shows {x : Bytes} (h0 : 0 ∉ x) (hl : x.getLast? ≠ some nl)
    {rows : List (Bytes × Bytes)} (hrows : ∀ row ∈ rows, TidyRow row) :
    Shows "b" (shares_body (subst (esc x)) rows)
      (((rows.map (·.1)).filter fun s => !is_protected s).map removeForm ++ [addShareForm])
      ((if x = [] then [] else [x]) ++ rows.map fun row => bytes "\\\\CLIO\\" ++ row.1) := by
  have htop := page_top_shows (show Plain (bytes "Shares") from ⟨by decide, by decide⟩)
  have hhead : Shows "b" (bytes ("<h2>Current shares</h2>\n" ++
      "<table><tr><th>Share</th><th>Who has access</th><th>Remove</th></tr>\n")) [] [] :=
    goes_fixed (by decide +kernel)
  have htable := Shows.flatMap fun row hrow =>
    shareRow_shows (hrows row hrow).value (hrows row hrow).plain (hrows row hrow).zero
      (hrows row hrow).last
  have hend : Shows "b" (bytes "</table>\n") [] [] :=
    goes_fixed (by decide +kernel)
  have hall := (((((htop.trans (messageLine_shows h0 hl)).trans hhead).trans htable).trans
    hend).trans addShare_shows).trans page_end_shows
  have hbold : (rows.flatMap fun row => [bytes "\\\\CLIO\\" ++ row.1]) =
      rows.map fun row => bytes "\\\\CLIO\\" ++ row.1 := (List.map_eq_flatMap ..).symm
  rw [forms_of_rows, hbold] at hall
  simpa [shares_body] using hall

/-! ## The listing -/

/-- The shares of smb.conf, in its order. -/
def shares (w : World) : List Bytes :=
  ((sections w.smb).map fun s => unbracket s.1).filter (· ≠ bytes "global")

theorem value_name {n : Bytes} (hn : nameRe n = true) : Value n := by
  refine ⟨nameRe_ne_nil hn, fun c hc => ?_⟩
  have hno : ∀ d, isLower d = false ∧ Panel.isDigit d = false → c ≠ d := fun d hd he =>
    nameRe_notMem hn hd (he ▸ hc)
  refine ⟨hno gt (by decide), ?_, hno quot (by decide), hno apos (by decide)⟩
  simp only [isSpace, Bool.or_eq_false_iff, decide_eq_false_iff_not]
  exact ⟨⟨⟨⟨hno _ (by decide), hno _ (by decide)⟩, hno _ (by decide)⟩, hno _ (by decide)⟩,
    hno _ (by decide)⟩

theorem plain_name {n : Bytes} (hn : nameRe n = true) : Plain n :=
  ⟨nameRe_notMem hn (by decide), nameRe_notMem hn (by decide)⟩

/-- A section that the panel knows has no row and is `[global]`, or the row of its name. -/
theorem known_row {s : Line × List Line} (h : Known s) :
    (unbracket s.1 = bytes "global" ∧ sectionRow s = []) ∨
      ∃ n typ o, n ≠ bytes "global" ∧ unbracket s.1 = n ∧ Shaped s n typ o := by
  cases h with
  | stage3Global => exact .inl ⟨by decide, sectionRow_global_stage3⟩
  | stage3Public => exact .inr ⟨_, _, _, by decide, by decide, shaped_public⟩
  | stage3Alpha => exact .inr ⟨_, _, _, by decide, by decide, shaped_alpha⟩
  | @share n o typ hn ho =>
    by_cases hg : n = bytes "global"
    · exact .inl ⟨(unbracket_header hn).trans hg, sectionRow_global hn hg ho⟩
    · exact .inr ⟨n, typ, o, hg, unbracket_header hn, shaped_share hn hg ho⟩

/-- What `read` makes of a line. -/
def splitRow (l : Line) : Bytes × Bytes := ((readTab 2 l).getD 0 [], (readTab 2 l).getD 1 [])

theorem splitRow_line {a b : Bytes} (ha : a ≠ [] ∧ tab ∉ a) (hb : tab ∉ b) :
    splitRow (a ++ tab :: b) = (a, b) := by
  rw [splitRow, readTab_field ha.1 ha.2, readTab_tab, readTab_rest hb]
  rfl

theorem description_tidy {typ : ShareType} {o : Bytes} (ho : typ = .priv → nameRe o = true) :
    tab ∉ typ.description o ∧ 0 ∉ typ.description o ∧ nl ∉ typ.description o := by
  cases typ with
  | priv =>
    have ho := ho rfl
    simp only [ShareType.description, List.mem_append, not_or]
    exact ⟨⟨nameRe_tab ho, by decide⟩, ⟨nameRe_notMem ho (by decide), by decide⟩, nameRe_nl ho,
      by decide⟩
  | family =>
    exact (by decide : tab ∉ bytes "all users" ∧ 0 ∉ bytes "all users" ∧ nl ∉ bytes "all users")
  | guest =>
    exact (by decide : tab ∉ bytes "anyone on the network (guest, no password)" ∧
      0 ∉ bytes "anyone on the network (guest, no password)" ∧
      nl ∉ bytes "anyone on the network (guest, no password)")

variable {e : Env} {w : World}

theorem tableRows_shares (he : Succeeds e) (w : World) :
    tableRows e (bytes "share-list") w = (lines (unlines (listLines w.smb))).map splitRow := by
  have hcall : sudo_op e [bytes "share-list"] [] w = (.ok (unlines (listLines w.smb)), w) :=
    share_list_exec (he _) [] [] w
  rw [tableRows, hcall]
  rfl

theorem sectionRow_tidy (h : KnownConf w.smb) {s : Line × List Line} (hs : s ∈ sections w.smb)
    {l : Line} (hl : l ∈ sectionRow s) :
    nl ∉ l ∧ nameRe (splitRow l).1 = true ∧ TidyRow (splitRow l) := by
  rcases known_row (h.known s hs) with ⟨-, h0⟩ | ⟨n, typ, o, -, -, hsh⟩
  · rw [h0] at hl
    cases hl
  · rw [hsh.row, List.mem_singleton] at hl
    obtain ⟨htab, hzero, hnl⟩ := description_tidy hsh.owner
    rw [hl, splitRow_line ⟨nameRe_ne_nil hsh.name, nameRe_tab hsh.name⟩ htab]
    refine ⟨?_, hsh.name, value_name hsh.name, plain_name hsh.name, hzero,
      fun hlast => hnl (List.mem_of_getLast? hlast)⟩
    simp only [List.mem_append, List.mem_cons, not_or]
    exact ⟨nameRe_nl hsh.name, by decide, hnl⟩

theorem tableRows_eq (he : Succeeds e) (h : KnownConf w.smb) :
    tableRows e (bytes "share-list") w =
      (sections w.smb).flatMap fun s => (sectionRow s).map splitRow := by
  have hlines : lines (unlines (listLines w.smb)) = (sections w.smb).flatMap sectionRow := by
    rw [listLines_eq]
    refine records_terminate fun l hl => ?_
    obtain ⟨s, hs, hl⟩ := List.mem_flatMap.1 hl
    exact (sectionRow_tidy h hs hl).1
  rw [tableRows_shares he, hlines, List.map_flatMap]

/-- **The rows of the page are the shares, in the order of smb.conf.** -/
theorem share_rows (he : Succeeds e) (h : KnownConf w.smb) :
    (tableRows e (bytes "share-list") w).map (·.1) = shares w ∧
      ∀ row ∈ tableRows e (bytes "share-list") w, nameRe row.1 = true ∧ TidyRow row := by
  have hfst : ∀ s ∈ sections w.smb, (sectionRow s).map (fun l => (splitRow l).1) =
      [unbracket s.1].filter (· ≠ bytes "global") := by
    intro s hs
    rcases known_row (h.known s hs) with ⟨hg, h0⟩ | ⟨n, typ, o, hg, hn, hsh⟩
    · rw [h0, hg]
      rfl
    · have htab := (description_tidy hsh.owner).1
      rw [hsh.row, hn, List.map_singleton,
        splitRow_line ⟨nameRe_ne_nil hsh.name, nameRe_tab hsh.name⟩ htab,
        List.filter_cons_of_pos (by simpa using hg), List.filter_nil]
  rw [tableRows_eq he h]
  constructor
  · rw [List.map_flatMap]
    simp only [List.map_map]
    refine (List.flatMap_congr hfst).trans ?_
    rw [shares, List.map_eq_flatMap, List.filter_flatMap]
  · intro row hrow
    obtain ⟨s, hs, hrow⟩ := List.mem_flatMap.1 hrow
    obtain ⟨l, hl, rfl⟩ := List.mem_map.1 hrow
    exact (sectionRow_tidy h hs hl).2

theorem answer_tidy (reply : Option (Except Bytes Bytes)) :
    0 ∉ answer reply ∧ (answer reply).getLast? ≠ some nl := by
  cases reply with
  | none => exact ⟨List.not_mem_nil, nofun⟩
  | some reply =>
    refine ⟨fun h => ?_, getLast?_subst _⟩
    have hm := (List.rdropWhile_prefix (fun c => decide (c = nl)) _).subset h
    simp at hm

/-! ## The page of the shares -/

theorem granted_exec (he : Succeeds e) (c : Call) (h : Granted w) : Granted (c.exec e w).2 :=
  ⟨knownConf_exec he c h.conf, members_stores he h.members (exec_stores e c w)⟩

theorem sudo_op_call (e : Env) (verb name : Bytes) (rest : List Bytes) (stdin : Bytes) (w : World) :
    ∃ c : Call, c.name = name ∧ (sudo_op e (verb :: name :: rest) stdin w).2 = (c.exec e w).2 :=
  ⟨Call.ofArgv (verb :: name :: rest) stdin, rfl, rfl⟩

/-- A request to `shares.cgi` makes one call for the posted name, or none. -/
theorem shares_cgi_calls (e : Env) (r : Request) (w : World) : (shares_cgi e r w).2 = w ∨
    ∃ c : Call, c.name = r.get "name" ∧ (shares_cgi e r w).2 = (c.exec e w).2 := by
  have hpost : (shares_post e r w).2 = w ∨
      ∃ c : Call, c.name = r.get "name" ∧ (shares_post e r w).2 = (c.exec e w).2 := by
    unfold shares_post
    split
    · exact .inr (sudo_op_call ..)
    · split
      · split
        · exact .inr (sudo_op_call ..)
        · exact .inl rfl
      · exact .inl rfl
  by_cases hm : r.method = POST
  · have hq : shares_cgi e r w = (some (shares_post e r w).1, (shares_post e r w).2) := if_pos hm
    rw [hq]
    dsimp only
    exact hpost
  · have hq : shares_cgi e r w = (none, w) := if_neg hm
    rw [hq]
    exact .inl rfl

theorem granted_shares_cgi (he : Succeeds e) (r : Request) (h : Granted w) :
    Granted (shares_cgi e r w).2 := by
  rcases shares_cgi_calls e r w with hq | ⟨c, -, hq⟩
  · rwa [hq]
  · rw [hq]
    exact granted_exec he c h

theorem shares_page_granted (he : Succeeds e) (r : Request) (hw : Granted (shares_cgi e r w).2) :
    let reply := answer (shares_cgi e r w).1
    let p := shares_page e r w
    forms (document p.1) =
        ((shares p.2).filter fun s => !is_protected s).map removeForm ++ [addShareForm] ∧
      texts "b" (document p.1) =
        (if reply = [] then [] else [reply]) ++ (shares p.2).map (bytes "\\\\CLIO\\" ++ ·) := by
  intro reply p
  obtain ⟨hnames, htidy⟩ := share_rows he hw.conf
  obtain ⟨h0, hl⟩ := answer_tidy (shares_cgi e r w).1
  have hshow := shares_body_shows h0 hl fun row hrow => (htidy row hrow).2
  have hdoc : document p.1 = shares_body (subst (esc reply))
      (tableRows e (bytes "share-list") (shares_cgi e r w).2) := document_page _
  have hbold := List.map_map (f := fun row : Bytes × Bytes => row.1)
    (g := fun s => bytes "\\\\CLIO\\" ++ s)
    (l := tableRows e (bytes "share-list") (shares_cgi e r w).2)
  rw [hnames] at hshow hbold
  rw [hdoc]
  exact ⟨hshow.forms_eq, hshow.texts_eq.trans (congrArg (_ ++ ·) hbold.symm)⟩

/-- **Whatever is sent to `shares.cgi`, in any state that the panel reaches: the page shows the reply as
it is, then the shares, and has a form for each share that it does not protect, and for a new one.** -/
theorem shares_page_shows (base : Base) {cs : List (Env × Call)}
    (hcs : ∀ p ∈ cs, Succeeds p.1) (he : Succeeds e) (r : Request) :
    let w := runCalls (stage3World base) cs
    let reply := answer (shares_cgi e r w).1
    let p := shares_page e r w
    forms (document p.1) =
        ((shares p.2).filter fun s => !is_protected s).map removeForm ++ [addShareForm] ∧
      texts "b" (document p.1) =
        (if reply = [] then [] else [reply]) ++ (shares p.2).map (bytes "\\\\CLIO\\" ++ ·) :=
  shares_page_granted he r (granted_shares_cgi he r (granted_run hcs (granted_stage3 base)))

/-- A refused name with markup is shown as it was posted. -/
theorem shares_page_shows_markup :
    let w := runCalls (stage3World ∅) [(allOk, ⟨.shareAdd, [bytes "media", bytes "guest"], []⟩)]
    let r := formPost [(bytes "action", bytes "del"), (bytes "name", bytes "<b>x&lt;"),
      (bytes "confirm", bytes "on")]
    texts "b" (document (shares_page allOk r w).1) =
      [bytes "ERR: invalid name '<b>x&lt;' (lowercase letters+digits, 2-16 chars)", bytes "\\\\CLIO\\public",
        bytes "\\\\CLIO\\alpha", bytes "\\\\CLIO\\media"] := by
  intro w r
  have hcs : ∀ c ∈ [(allOk, (⟨.shareAdd, [bytes "media", bytes "guest"], []⟩ : Call))],
      Succeeds c.1 := by simp [succeeds_allOk]
  exact (shares_page_shows ∅ hcs succeeds_allOk r).2.trans (by decide +kernel)

/-! ## Users -/

def grantForm (u : Bytes) : Form := actionForm (bytes "admon") u []

def revokeForm (u : Bytes) : Form := actionForm (bytes "admoff") u []

def passForm (u : Bytes) : Form := actionForm (bytes "pass") u [.text (bytes "pass")]

def deleteForm (u : Bytes) : Form := actionForm (bytes "del") u [.checkbox (bytes "confirm")]

def addUserForm : Form :=
  ⟨bytes "post", [.hidden (bytes "action") (bytes "add"), .text (bytes "name"),
    .text (bytes "pass"), .checkbox (bytes "withshare")]⟩

/-- The forms of a user, who is marked as an admin or not. -/
def userForms (u : Bytes) (admin : Bool) : List Form :=
  if u = alpha then [passForm u]
  else [if admin then revokeForm u else grantForm u, passForm u, deleteForm u]

theorem userForm_shows {action u controls : Bytes} {ts : List Token} {cs : List Control}
    (ha : Value action) (hu : Value u) (h : scan lex .data controls = (.data, ts))
    (hb : scan (textStep (bytes "b")) none ts = (none, []))
    (hf : ∀ cs', scan formStep (some ⟨bytes "post", cs'⟩) ts = (some ⟨bytes "post", cs' ++ cs⟩, [])) :
    Shows "b" (userForm action u controls) [actionForm action u cs] [] := by
  have hopen : Goes "b" .start (bytes "<form class=inline method=post><input type=hidden name=action value=")
      [] [] ⟨.beforeValue (bytes "input") [(bytes "type", bytes "hidden"),
        (bytes "name", bytes "action")] (bytes "value"), some ⟨bytes "post", []⟩, none⟩ :=
    goes_fixed (by decide +kernel)
  have hlex : scan lex .data (bytes "<input type=hidden name=name value=") =
      (.beforeValue (bytes "input") [(bytes "type", bytes "hidden"), (bytes "name", bytes "name")]
        (bytes "value"), []) := by decide +kernel
  have hname : ∀ f : Form, Goes "b" ⟨.data, some f, none⟩ (bytes "<input type=hidden name=name value=")
      [] [] ⟨.beforeValue (bytes "input") [(bytes "type", bytes "hidden"),
        (bytes "name", bytes "name")] (bytes "value"), some f, none⟩ := fun f =>
    ⟨[], hlex, rfl, rfl⟩
  have hcontrols : Goes "b" ⟨.data, some ⟨bytes "post", [.hidden (bytes "action") action,
      .hidden (bytes "name") u]⟩, none⟩ controls [] [] ⟨.data, some ⟨bytes "post",
        [.hidden (bytes "action") action, .hidden (bytes "name") u] ++ cs⟩, none⟩ :=
    ⟨ts, h, hf _, hb⟩
  have hclose : Goes "b" ⟨.data, some ⟨bytes "post", [.hidden (bytes "action") action,
      .hidden (bytes "name") u] ++ cs⟩, none⟩ (bytes "</form>") [actionForm action u cs] [] .start :=
    goes_controls (Prod.ext rfl rfl) (by decide +kernel) rfl
  have hall := ((((hopen.trans (goes_value ha _ (bytes "action") (by decide) _)).trans
    (hname _)).trans (goes_value hu _ (bytes "name") (by decide) _)).trans hcontrols).trans hclose
  have h1 : bytes "><input type=hidden name=name value=" =
    [gt] ++ bytes "<input type=hidden name=name value=" := by decide +kernel
  have h2 : bytes ">" = [gt] := by decide
  unfold userForm
  rw [h1, h2]
  simpa using hall

/-- The controls that tokens add to a form that stays open. -/
def inputs : List Token → Option (List Control)
  | [] => some []
  | .tag n as :: ts =>
    if n = bytes "input" then (inputs ts).map (control as ++ ·)
    else if n = bytes "select" ∨ n = bytes "option" then none
    else inputs ts
  | .endTag n :: ts => if n = bytes "form" then none else inputs ts
  | .char _ :: ts => inputs ts

theorem formStep_inputs {ts : List Token} {cs : List Control} (h : inputs ts = some cs) (m : Bytes)
    (cs' : List Control) : scan formStep (some ⟨m, cs'⟩) ts = (some ⟨m, cs' ++ cs⟩, []) := by
  induction ts generalizing cs cs' with
  | nil =>
    cases h
    rw [List.append_nil, scan]
  | cons t ts ih =>
    cases t with
    | tag n as =>
      rw [inputs] at h
      split at h
      · rename_i hi
        obtain ⟨ds, hds, rfl⟩ := Option.map_eq_some_iff.1 h
        rw [scan, formStep, if_pos hi, ih hds, List.append_assoc]
        rfl
      · rename_i hi
        split at h
        · cases h
        · rename_i hno
          rw [scan, formStep, if_neg hi, if_neg (not_or.1 hno).1, if_neg (not_or.1 hno).2, ih h]
          rfl
    | endTag n =>
      rw [inputs] at h
      split at h
      · cases h
      · rename_i hi
        rw [scan, formStep, if_neg hi, ih h]
        rfl
    | char c =>
      rw [scan, formStep, ih h]
      rfl

/-- The form of a row, whose other controls are fixed. -/
theorem userForm_fixed {action u controls : Bytes} {cs : List Control} (hu : Value u)
    (h : Value action ∧ (fun r : State × List Token => r.1 = .data ∧
      scan (textStep (bytes "b")) none r.2 = (none, []) ∧ inputs r.2 = some cs)
        (scan lex .data controls)) :
    Shows "b" (userForm action u controls) [actionForm action u cs] [] := by
  obtain ⟨ha, h1, h2, h3⟩ := h
  exact userForm_shows ha hu (Prod.ext h1 rfl) h2 (formStep_inputs h3 _)

/-- **A row shows its user, with the forms to change what the user may do.** -/
theorem userRow_shows {u mark : Bytes} (hu : Value u) (hp : Plain u) :
    Shows "b" (userRow (u, mark)) (userForms u (mark = bytes "admin")) [u] := by
  have hname : Goes "b" .start (bytes "<tr><td><b>") [] [] ⟨.data, none, some []⟩ :=
    goes_fixed (by decide +kernel)
  have hcell := goes_close (t := bytes "</b></td>\n") rfl (by decide) ⟨_, rfl, by decide⟩ ([] ++ u)
  have htext := (hname.trans (goes_inside (lex_plain hp) "b" none _)).trans hcell
  have hgrant : Shows "b" (userForm (bytes "admon") u (bytes "<input type=submit value='Make admin'>"))
      [grantForm u] [] := userForm_fixed hu (by decide +kernel)
  have hrevoke : Shows "b" (userForm (bytes "admoff") u (bytes "<input type=submit value=Revoke>"))
      [revokeForm u] [] := userForm_fixed hu (by decide +kernel)
  have hpass : Shows "b" (userForm (bytes "pass") u
      (bytes "<input name=pass type=password size=10> <input type=submit value=Set>"))
      [passForm u] [] := userForm_fixed hu (by decide +kernel)
  have hdel : Shows "b" (userForm (bytes "del") u
      (bytes ("<label><input type=checkbox name=confirm> confirm</label> " ++
        "<input class=danger type=submit value=Delete>"))) [deleteForm u] [] :=
    userForm_fixed hu (by decide +kernel)
  have hfix : Shows "b" (bytes "<td class=ok>yes (always)</td>\n") [] [] ∧
      Shows "b" (bytes "<td><span class=ok>yes</span> ") [] [] ∧
      Shows "b" (bytes "</td>\n") [] [] ∧ Shows "b" (bytes "<td>&mdash; ") [] [] ∧
      Shows "b" (bytes "<td>") [] [] ∧
      Shows "b" (bytes "<td><small>(protected)</small></td>\n") [] [] ∧
      Shows "b" (bytes "</tr>\n") [] [] :=
    ⟨goes_fixed (by decide +kernel), goes_fixed (by decide +kernel), goes_fixed (by decide +kernel),
      goes_fixed (by decide +kernel), goes_fixed (by decide +kernel), goes_fixed (by decide +kernel),
      goes_fixed (by decide +kernel)⟩
  obtain ⟨halways, hyes, htd, hdash, hopen, hprotected, htr⟩ := hfix
  have hpasscell := (hopen.trans hpass).trans htd
  unfold userRow userForms
  dsimp only
  by_cases ha : u = alpha
  · rw [if_pos ha, if_pos ha, if_pos ha]
    simpa using ((((htext.trans halways).trans hpasscell).trans hprotected).trans htr)
  · have hdelcell := (hopen.trans hdel).trans htd
    rw [if_neg ha, if_neg ha, if_neg ha]
    by_cases hm : mark = bytes "admin"
    · have hadm := (hyes.trans hrevoke).trans htd
      simpa [hm] using ((((htext.trans hadm).trans hpasscell).trans hdelcell).trans htr)
    · have hadm := (hdash.trans hgrant).trans htd
      simpa [hm] using ((((htext.trans hadm).trans hpasscell).trans hdelcell).trans htr)

theorem addUser_shows : Shows "b" addUser [addUserForm] [] := goes_fixed (by decide +kernel)

theorem users_body_shows {x : Bytes} (h0 : 0 ∉ x) (hl : x.getLast? ≠ some nl)
    {rows : List (Bytes × Bytes)} (hrows : ∀ row ∈ rows, nameRe row.1 = true) :
    Shows "b" (users_body (subst (esc x)) rows)
      ((rows.flatMap fun row => userForms row.1 (row.2 = bytes "admin")) ++ [addUserForm])
      ((if x = [] then [] else [x]) ++ rows.map (·.1)) := by
  have htop := page_top_shows (show Plain (bytes "Users") from ⟨by decide, by decide⟩)
  have hhead : Shows "b" (bytes ("<h2>SMB users</h2>\n" ++ "<table><tr><th>User</th><th>Admin</th>" ++
      "<th>Set new password</th><th>Remove</th></tr>\n")) [] [] := goes_fixed (by decide +kernel)
  have htable : Shows "b" (rows.flatMap userRow)
      (rows.flatMap fun row => userForms row.1 (row.2 = bytes "admin"))
      (rows.flatMap fun row => [row.1]) :=
    Shows.flatMap fun row hrow => userRow_shows (value_name (hrows row hrow))
      (plain_name (hrows row hrow))
  have hend : Shows "b" (bytes "</table>\n") [] [] := goes_fixed (by decide +kernel)
  have hall := (((((htop.trans (messageLine_shows h0 hl)).trans hhead).trans htable).trans
    hend).trans addUser_shows).trans page_end_shows
  rw [← List.map_eq_flatMap] at hall
  unfold users_body
  simpa only [List.nil_append, List.append_nil] using hall

/-- The SMB accounts, in the order of `pdbedit`, and whether each is in `smbadmins`. -/
def accounts (w : World) : List (Bytes × Bool) :=
  w.passdb.keys.map fun u => (u, decide ((smbadmins, u) ∈ w.groups))

/-- **The rows of the page are the SMB accounts, marked as admins by their group.** -/
theorem user_rows (he : Succeeds e) (h : Members w) :
    (tableRows e (bytes "user-list") w).map (fun row => (row.1, decide (row.2 = bytes "admin"))) =
        accounts w ∧
      ∀ row ∈ tableRows e (bytes "user-list") w, nameRe row.1 = true := by
  have hname : ∀ u ∈ w.passdb.keys, nameRe u = true := by
    intro u hu
    rcases h.passdb u hu with rfl | hu
    · decide
    · exact hu.1
  have hmark : ∀ admins u, tab ∉ (if markedAdmin admins u then bytes "admin" else bytes "-") := by
    intro admins u
    split <;> decide
  have hnl : ∀ l ∈ w.passdb.keys.map (userLine (adminsText (w.members smbadmins))), nl ∉ l := by
    intro l hl
    obtain ⟨u, hu, rfl⟩ := List.mem_map.1 hl
    unfold userLine
    simp only [List.mem_append, List.mem_cons, not_or]
    refine ⟨nameRe_nl (hname u hu), by decide, ?_⟩
    split <;> decide
  have hcall : (sudo_op e [bytes "user-list"] [] w).1 =
      .ok (unlines (w.passdb.keys.map (userLine (adminsText (w.members smbadmins))))) :=
    user_list_exec he [] [] w
  have hrows : tableRows e (bytes "user-list") w = w.passdb.keys.map fun u =>
      (u, if markedAdmin (adminsText (w.members smbadmins)) u then bytes "admin" else bytes "-") := by
    rw [tableRows, hcall]
    dsimp only
    rw [lines, unlines, records_terminate hnl, List.map_map]
    exact List.map_congr_left fun u hu =>
      splitRow_line ⟨nameRe_ne_nil (hname u hu), nameRe_tab (hname u hu)⟩ (hmark _ _)
  rw [hrows]
  constructor
  · rw [List.map_map, accounts]
    refine List.map_congr_left fun u hu => Prod.ext rfl ?_
    have hm := markedAdmin_iff h (hname u hu)
    show decide _ = decide _
    rw [decide_eq_decide, ← hm]
    dsimp only
    cases markedAdmin (adminsText (w.members smbadmins)) u
    · exact iff_of_false (by decide) (by decide)
    · exact iff_of_true rfl rfl
  · intro row hrow
    obtain ⟨u, hu, rfl⟩ := List.mem_map.1 hrow
    exact hname u hu

/-! ## The page of the users -/

/-- A request to `users.cgi` makes one call for the posted name, or none. -/
theorem users_cgi_calls (e : Env) (r : Request) (w : World) : (users_cgi e r w).2 = w ∨
    ∃ c : Call, c.name = r.get "name" ∧ (users_cgi e r w).2 = (c.exec e w).2 := by
  have hpost : (users_post e r w).2 = w ∨
      ∃ c : Call, c.name = r.get "name" ∧ (users_post e r w).2 = (c.exec e w).2 := by
    unfold users_post
    dsimp only
    split
    · exact .inr (sudo_op_call ..)
    · split
      · exact .inr (sudo_op_call ..)
      · split
        · exact .inr (sudo_op_call ..)
        · split
          · exact .inr (sudo_op_call ..)
          · split
            · split
              · exact .inr (sudo_op_call ..)
              · exact .inl rfl
            · exact .inl rfl
  by_cases hm : r.method = POST
  · have hq : users_cgi e r w = (some (users_post e r w).1, (users_post e r w).2) := if_pos hm
    rw [hq]
    dsimp only
    exact hpost
  · have hq : users_cgi e r w = (none, w) := if_neg hm
    rw [hq]
    exact .inl rfl

theorem granted_users_cgi (he : Succeeds e) (r : Request) (h : Granted w) :
    Granted (users_cgi e r w).2 := by
  rcases users_cgi_calls e r w with hq | ⟨c, -, hq⟩
  · rwa [hq]
  · rw [hq]
    exact granted_exec he c h

theorem users_page_granted (he : Succeeds e) (r : Request) (hw : Granted (users_cgi e r w).2) :
    let reply := answer (users_cgi e r w).1
    let p := users_page e r w
    forms (document p.1) =
        ((accounts p.2).flatMap fun a => userForms a.1 a.2) ++ [addUserForm] ∧
      texts "b" (document p.1) =
        (if reply = [] then [] else [reply]) ++ (accounts p.2).map (·.1) := by
  intro reply p
  obtain ⟨hrows, hname⟩ := user_rows he hw.members
  obtain ⟨h0, hl⟩ := answer_tidy (users_cgi e r w).1
  have hshow := users_body_shows h0 hl hname
  have hdoc : document p.1 = users_body (subst (esc reply))
      (tableRows e (bytes "user-list") (users_cgi e r w).2) := document_page _
  rw [hdoc, show p.2 = (users_cgi e r w).2 from rfl, ← hrows, List.flatMap_map, List.map_map]
  exact ⟨hshow.forms_eq, hshow.texts_eq⟩

/-- **Whatever is sent to `users.cgi`, in any state that the panel reaches: the page shows the reply as
it is, then the SMB accounts, and has for each the forms that fit what it may do, and one for a new
account.** -/
theorem users_page_shows (base : Base) {cs : List (Env × Call)}
    (hcs : ∀ p ∈ cs, Succeeds p.1) (he : Succeeds e) (r : Request) :
    let w := runCalls (stage3World base) cs
    let reply := answer (users_cgi e r w).1
    let p := users_page e r w
    forms (document p.1) =
        ((accounts p.2).flatMap fun a => userForms a.1 a.2) ++ [addUserForm] ∧
      texts "b" (document p.1) =
        (if reply = [] then [] else [reply]) ++ (accounts p.2).map (·.1) :=
  users_page_granted he r (granted_users_cgi he r (granted_run hcs (granted_stage3 base)))

/-- bob, just made an admin, has a form to revoke it, and `alpha` only the one for the password. -/
theorem users_page_shows_bob :
    let w := runCalls (stage3World ∅)
      [(allOk, ⟨.userAdd, [bytes "bob", bytes "noshare"], bytes "secret\n"⟩)]
    let r := formPost [(bytes "action", bytes "admon"), (bytes "name", bytes "bob")]
    forms (document (users_page allOk r w).1) =
      [revokeForm (bytes "bob"), passForm (bytes "bob"), deleteForm (bytes "bob"), passForm alpha,
        addUserForm] := by
  intro w r
  have hcs : ∀ c ∈ [(allOk, (⟨.userAdd, [bytes "bob", bytes "noshare"], bytes "secret\n"⟩ : Call))],
      Succeeds c.1 := by simp [succeeds_allOk]
  exact (users_page_shows ∅ hcs succeeds_allOk r).1.trans (by decide +kernel)

end Cgi
