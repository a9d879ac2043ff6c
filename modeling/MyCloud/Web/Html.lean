import MyCloud.Shell.Text

/-!
# Pages as a browser reads them

`scan` is a pass over a list with a state and an output. The tokens of a text (`lex`), the forms of
a page (`formStep`) and the texts of its elements (`textStep`) are such passes, one over the bytes
and two over the tokens. `Goes n v t fs xs v'` is all three at once.

* `scan_trans`: passes over two texts, one after the other.
* `lex_escape`: an escaped text is read as its characters.
* `Goes.trans`, `Shows.flatMap`: what is read of a page that is put together from pieces.
-/

set_option autoImplicit false

namespace Html

open Shell

/-! ## Passes -/

section
variable {σ α β : Type}

def scan (step : σ → α → σ × List β) : σ → List α → σ × List β
  | s, [] => (s, [])
  | s, a :: l =>
    let r := step s a
    let r' := scan step r.1 l
    (r'.1, r.2 ++ r'.2)

variable {step : σ → α → σ × List β} {s s' s'' : σ} {l m : List α} {o o' : List β}

theorem scan_trans (h : scan step s l = (s', o)) (h' : scan step s' m = (s'', o')) :
    scan step s (l ++ m) = (s'', o ++ o') := by
  induction l generalizing s o with
  | nil =>
    cases h
    exact h'
  | cons a l ih =>
    rw [scan] at h
    cases h
    rw [List.cons_append, scan, ih rfl, List.append_assoc]

/-- A pass that stays where it is. -/
theorem scan_stay {f : α → List β} (h : ∀ a ∈ l, step s a = (s, f a)) :
    scan step s l = (s, l.flatMap f) := by
  induction l with
  | nil => rfl
  | cons a l ih =>
    rw [scan, h a List.mem_cons_self, ih fun b hb => h b (List.mem_cons_of_mem _ hb)]
    rfl

/-- A pass that collects. -/
theorem scan_collect {γ : Type} {f : List γ → σ} {g : α → γ} (h : ∀ v, ∀ a ∈ l,
    step (f v) a = (f (v ++ [g a]), [])) (v : List γ) :
    scan step (f v) l = (f (v ++ l.map g), []) := by
  induction l generalizing v with
  | nil => rw [List.map_nil, List.append_nil, scan]
  | cons a l ih =>
    rw [scan, h v a List.mem_cons_self, ih (fun v b hb => h v b (List.mem_cons_of_mem _ hb)),
      List.map_cons, List.append_assoc]
    rfl

end

/-! ## Tokens -/

abbrev Attr := Bytes × Bytes

inductive Token
  | tag (name : Bytes) (attrs : List Attr)
  | endTag (name : Bytes)
  | char (c : UInt8)
  deriving DecidableEq

/-- Where the pass stands. -/
inductive State
  | data
  | reference (name : Bytes)
  | tagOpen
  | endTagOpen
  | endTagName (name : Bytes)
  | endTagRest (name : Bytes)
  /-- `<!` and what is no name, up to the next `>`. -/
  | markup
  | tagName (name : Bytes)
  | beforeName (tag : Bytes) (attrs : List Attr)
  | name (tag : Bytes) (attrs : List Attr) (key : Bytes)
  | afterName (tag : Bytes) (attrs : List Attr) (key : Bytes)
  | beforeValue (tag : Bytes) (attrs : List Attr) (key : Bytes)
  | quoted (quote : UInt8) (tag : Bytes) (attrs : List Attr) (key value : Bytes)
  | unquoted (tag : Bytes) (attrs : List Attr) (key value : Bytes)
  deriving DecidableEq

def isSpace (c : UInt8) : Bool := c = 32 || c = 9 || c = 10 || c = 12 || c = 13

def isAlpha (c : UInt8) : Bool :=
  ('a'.toUInt8 ≤ c && c ≤ 'z'.toUInt8) || ('A'.toUInt8 ≤ c && c ≤ 'Z'.toUInt8)

def isDigit (c : UInt8) : Bool := '0'.toUInt8 ≤ c && c ≤ '9'.toUInt8

def lower (c : UInt8) : UInt8 := if 'A'.toUInt8 ≤ c ∧ c ≤ 'Z'.toUInt8 then c + 32 else c

def lt : UInt8 := '<'.toUInt8

def gt : UInt8 := '>'.toUInt8

def amp : UInt8 := '&'.toUInt8

def slash : UInt8 := '/'.toUInt8

def quot : UInt8 := 34

def apos : UInt8 := 39

/-- The named characters; another reference is kept as it is written. -/
def named (n : Bytes) : Bytes :=
  if n = bytes "amp" then [amp]
  else if n = bytes "lt" then [lt]
  else if n = bytes "gt" then [gt]
  else amp :: n ++ [';'.toUInt8]

def onData (c : UInt8) : State × List Token :=
  if c = lt then (.tagOpen, [])
  else if c = amp then (.reference [], [])
  else (.data, [.char c])

/-- References in the values of attributes are kept as they are written. -/
def lex : State → UInt8 → State × List Token
  | .data, c => onData c
  | .reference n, c =>
    if c = ';'.toUInt8 then (.data, (named n).map .char)
    else if isAlpha c || isDigit c || c = '#'.toUInt8 then (.reference (n ++ [c]), [])
    else ((onData c).1, (amp :: n).map .char ++ (onData c).2)
  | .tagOpen, c =>
    if c = '!'.toUInt8 then (.markup, [])
    else if c = slash then (.endTagOpen, [])
    else if isAlpha c then (.tagName [lower c], [])
    else ((onData c).1, .char lt :: (onData c).2)
  | .endTagOpen, c =>
    if isAlpha c then (.endTagName [lower c], [])
    else if c = gt then (.data, [])
    else (.markup, [])
  | .endTagName n, c =>
    if c = gt then (.data, [.endTag n])
    else if isSpace c || c = slash then (.endTagRest n, [])
    else (.endTagName (n ++ [lower c]), [])
  | .endTagRest n, c => if c = gt then (.data, [.endTag n]) else (.endTagRest n, [])
  | .markup, c => if c = gt then (.data, []) else (.markup, [])
  | .tagName n, c =>
    if c = gt then (.data, [.tag n []])
    else if isSpace c || c = slash then (.beforeName n [], [])
    else (.tagName (n ++ [lower c]), [])
  | .beforeName n as, c =>
    if c = gt then (.data, [.tag n as])
    else if isSpace c || c = slash then (.beforeName n as, [])
    else (.name n as [lower c], [])
  | .name n as k, c =>
    if c = gt then (.data, [.tag n (as ++ [(k, [])])])
    else if isSpace c then (.afterName n as k, [])
    else if c = slash then (.beforeName n (as ++ [(k, [])]), [])
    else if c = '='.toUInt8 then (.beforeValue n as k, [])
    else (.name n as (k ++ [lower c]), [])
  | .afterName n as k, c =>
    if c = gt then (.data, [.tag n (as ++ [(k, [])])])
    else if isSpace c then (.afterName n as k, [])
    else if c = slash then (.beforeName n (as ++ [(k, [])]), [])
    else if c = '='.toUInt8 then (.beforeValue n as k, [])
    else (.name n (as ++ [(k, [])]) [lower c], [])
  | .beforeValue n as k, c =>
    if c = gt then (.data, [.tag n (as ++ [(k, [])])])
    else if isSpace c then (.beforeValue n as k, [])
    else if c = quot || c = apos then (.quoted c n as k [], [])
    else (.unquoted n as k [c], [])
  | .quoted q n as k v, c =>
    if c = q then (.beforeName n (as ++ [(k, v)]), []) else (.quoted q n as k (v ++ [c]), [])
  | .unquoted n as k v, c =>
    if c = gt then (.data, [.tag n (as ++ [(k, v)])])
    else if isSpace c then (.beforeName n (as ++ [(k, v)]), [])
    else (.unquoted n as k (v ++ [c]), [])

/-- The tokens of a page; a token that is not complete at the end is lost. -/
def read (t : Bytes) : List Token := (scan lex .data t).2

/-- A text that means nothing to `lex`. -/
def Plain (t : Bytes) : Prop := lt ∉ t ∧ amp ∉ t

theorem lex_plain {t : Bytes} (h : Plain t) : scan lex .data t = (.data, t.map .char) := by
  have hstep : ∀ c ∈ t, lex .data c = (.data, [.char c]) := fun c hc => by
    rw [lex, onData, if_neg fun he : c = lt => h.1 (he ▸ hc),
      if_neg fun he : c = amp => h.2 (he ▸ hc)]
  rw [scan_stay hstep, ← List.map_eq_flatMap]

/-- `&`, `<` and `>` as references. -/
def escape (t : Bytes) : Bytes :=
  t.flatMap fun c =>
    if c = amp then bytes "&amp;" else if c = lt then bytes "&lt;"
    else if c = gt then bytes "&gt;" else [c]

/-- **An escaped text is read as its characters.** -/
theorem lex_escape (t : Bytes) : scan lex .data (escape t) = (.data, t.map .char) := by
  induction t with
  | nil => rfl
  | cons c t ih =>
    refine scan_trans (o := [.char c]) ?_ ih
    dsimp only
    split_ifs with h1 h2 h3
    · subst h1
      decide
    · subst h2
      decide
    · subst h3
      decide
    · exact lex_plain ⟨by simpa using Ne.symm h2, by simpa using Ne.symm h1⟩

/-- A text that ends no value without quotes. -/
def Unquoted (t : Bytes) : Prop := ∀ c ∈ t, c ≠ gt ∧ isSpace c = false

/-- The value of an attribute, in a text that starts neither with a quote nor with a blank. -/
theorem lex_value {t : Bytes} (h : Unquoted t) {c : UInt8} (hc : c ∈ t.head?)
    (hq : c ≠ quot ∧ c ≠ apos) (n : Bytes) (as : List Attr) (k : Bytes) :
    scan lex (.beforeValue n as k) (t ++ [gt]) = (.data, [.tag n (as ++ [(k, t)])]) := by
  obtain ⟨t, rfl⟩ : ∃ t', t = c :: t' := List.head?_eq_some_iff.1 hc
  have hstart : lex (.beforeValue n as k) c = (.unquoted n as k [c], []) := by
    have hc := h c List.mem_cons_self
    rw [lex, if_neg hc.1, hc.2, if_neg Bool.false_ne_true, if_neg (by simp [hq])]
  have hrest : scan lex (.unquoted n as k [c]) t = (.unquoted n as k ([c] ++ t.map id), []) := by
    refine scan_collect (f := fun v => State.unquoted n as k v) (fun v d hd => ?_) [c]
    have hd := h d (List.mem_cons_of_mem _ hd)
    rw [lex, if_neg hd.1, hd.2, if_neg Bool.false_ne_true]
    rfl
  rw [List.map_id] at hrest
  have hend : scan lex (.unquoted n as k ([c] ++ t)) [gt] =
      (.data, [.tag n (as ++ [(k, c :: t)])]) := rfl
  have hall := scan_trans hrest hend
  rw [List.cons_append, scan, hstart, hall]
  rfl

/-! ## Forms -/

inductive Control
  | hidden (name value : Bytes)
  | checkbox (name : Bytes)
  | text (name : Bytes)
  | select (name : Bytes) (options : List Bytes)
  deriving DecidableEq

structure Form where
  method : Bytes
  controls : List Control
  deriving DecidableEq

def attr (as : List Attr) (k : String) : Bytes := (as.lookup (bytes k)).getD []

/-- What an `input` adds to its form; the buttons have no name. -/
def control (as : List Attr) : List Control :=
  let n := attr as "name"
  let type := attr as "type"
  if n = [] ∨ type = bytes "submit" then []
  else if type = bytes "hidden" then [.hidden n (attr as "value")]
  else if type = bytes "checkbox" then [.checkbox n]
  else [.text n]

/-- An option of the last `select`. -/
def addOption (v : Bytes) : List Control → List Control
  | [] => []
  | [.select n os] => [.select n (os ++ [v])]
  | c :: cs => c :: addOption v cs

/-- The form that is open, and the forms that end. -/
def formStep : Option Form → Token → Option Form × List Form
  | none, .tag n as => (if n = bytes "form" then some ⟨attr as "method", []⟩ else none, [])
  | none, .endTag _ => (none, [])
  | some f, .tag n as =>
    if n = bytes "input" then (some { f with controls := f.controls ++ control as }, [])
    else if n = bytes "select" then
      (some { f with controls := f.controls ++ [.select (attr as "name") []] }, [])
    else if n = bytes "option" then
      (some { f with controls := addOption (attr as "value") f.controls }, [])
    else (some f, [])
  | some f, .endTag n => if n = bytes "form" then (none, [f]) else (some f, [])
  | f, .char _ => (f, [])

/-- The forms of a page. -/
def forms (t : Bytes) : List Form := (scan formStep none (read t)).2

/-- What is sent of the controls: a box that is not ticked sends nothing, and a line that is typed
has no newline and no NUL. -/
inductive Submits : List Control → List (Bytes × Bytes) → Prop
  | nil : Submits [] []
  | hidden {cs : List Control} {ps : List (Bytes × Bytes)} (n v : Bytes) (h : Submits cs ps) :
      Submits (.hidden n v :: cs) ((n, v) :: ps)
  | ticked {cs : List Control} {ps : List (Bytes × Bytes)} (n : Bytes) (h : Submits cs ps) :
      Submits (.checkbox n :: cs) ((n, bytes "on") :: ps)
  | unticked {cs : List Control} {ps : List (Bytes × Bytes)} (n : Bytes) (h : Submits cs ps) :
      Submits (.checkbox n :: cs) ps
  | text {cs : List Control} {ps : List (Bytes × Bytes)} (n : Bytes) {v : Bytes}
      (hv : nl ∉ v ∧ 0 ∉ v) (h : Submits cs ps) : Submits (.text n :: cs) ((n, v) :: ps)
  | select {cs : List Control} {ps : List (Bytes × Bytes)} (n : Bytes) {os : List Bytes} {v : Bytes}
      (hv : v ∈ os) (h : Submits cs ps) : Submits (.select n os :: cs) ((n, v) :: ps)

/-! ## Texts -/

/-- The text of the element `n` that is open, and the texts of those that end. -/
def textStep (n : Bytes) : Option Bytes → Token → Option Bytes × List Bytes
  | none, .tag m _ => (if m = n then some [] else none, [])
  | some t, .char c => (some (t ++ [c]), [])
  | some t, .endTag m => if m = n then (none, [t]) else (some t, [])
  | t, _ => (t, [])

/-- The texts of the elements `n` of a page. -/
def texts (n : String) (t : Bytes) : List Bytes := (scan (textStep (bytes n)) none (read t)).2

/-! ## Pages in pieces -/

/-- Where the three passes stand. -/
structure View where
  lexer : State
  form : Option Form
  text : Option Bytes

def View.start : View := ⟨.data, none, none⟩

/-- The passes over `t` lead from `v` to `v'`, with these forms and texts. -/
def Goes (n : String) (v : View) (t : Bytes) (fs : List Form) (xs : List Bytes) (v' : View) : Prop :=
  ∃ ts, scan lex v.lexer t = (v'.lexer, ts) ∧ scan formStep v.form ts = (v'.form, fs) ∧
    scan (textStep (bytes n)) v.text ts = (v'.text, xs)

/-- A piece that stands by itself. -/
abbrev Shows (n : String) (t : Bytes) (fs : List Form) (xs : List Bytes) : Prop :=
  Goes n .start t fs xs .start

section
variable {n : String} {v v' v'' : View} {t u : Bytes} {fs gs : List Form} {xs ys : List Bytes}

theorem Goes.trans (h : Goes n v t fs xs v') (h' : Goes n v' u gs ys v'') :
    Goes n v (t ++ u) (fs ++ gs) (xs ++ ys) v'' := by
  obtain ⟨ts, h1, h2, h3⟩ := h
  obtain ⟨us, h1', h2', h3'⟩ := h'
  exact ⟨ts ++ us, scan_trans h1 h1', scan_trans h2 h2', scan_trans h3 h3'⟩

theorem Shows.nil : Shows n [] [] [] := ⟨[], rfl, rfl, rfl⟩

theorem Shows.flatMap {α : Type} {l : List α} {f : α → Bytes} {g : α → List Form}
    {h : α → List Bytes} (hl : ∀ a ∈ l, Shows n (f a) (g a) (h a)) :
    Shows n (l.flatMap f) (l.flatMap g) (l.flatMap h) := by
  induction l with
  | nil => exact .nil
  | cons a l ih =>
    exact (hl a List.mem_cons_self).trans (ih fun b hb => hl b (List.mem_cons_of_mem _ hb))

theorem Shows.forms_eq (h : Shows n t fs xs) : forms t = fs := by
  obtain ⟨ts, h1, h2, -⟩ := h
  have h1 : scan lex .data t = (.data, ts) := h1
  have h2 : scan formStep none ts = (none, fs) := h2
  rw [forms, read, h1, h2]

theorem Shows.texts_eq (h : Shows n t fs xs) : texts n t = xs := by
  obtain ⟨ts, h1, -, h3⟩ := h
  have h1 : scan lex .data t = (.data, ts) := h1
  have h3 : scan (textStep (bytes n)) none ts = (none, xs) := h3
  rw [texts, read, h1, h3]

end

theorem forms_chars (f : Option Form) (t : Bytes) :
    scan formStep f (t.map .char) = (f, []) := by
  rw [scan_stay (f := fun _ => [])]
  · simp
  · intro a ha
    obtain ⟨c, -, rfl⟩ := List.mem_map.1 ha
    cases f <;> rfl

theorem texts_chars (n x t : Bytes) :
    scan (textStep n) (some x) (t.map .char) = (some (x ++ t), []) := by
  induction t generalizing x with
  | nil => rw [List.map_nil, List.append_nil, scan]
  | cons c t ih =>
    rw [List.map_cons, scan, textStep, ih, List.append_assoc]
    rfl

theorem texts_chars_none (n t : Bytes) :
    scan (textStep n) none (t.map .char) = (none, []) := by
  rw [scan_stay (f := fun _ => [])]
  · simp
  · intro a ha
    obtain ⟨c, -, rfl⟩ := List.mem_map.1 ha
    rfl

/-- Characters inside the element. -/
theorem goes_inside {t u : Bytes} (h : scan lex .data t = (.data, u.map .char)) (n : String)
    (f : Option Form) (x : Bytes) :
    Goes n ⟨.data, f, some x⟩ t [] [] ⟨.data, f, some (x ++ u)⟩ :=
  ⟨_, h, forms_chars f u, texts_chars _ x u⟩

/-- Characters outside of it. -/
theorem goes_outside {t u : Bytes} (h : scan lex .data t = (.data, u.map .char)) (n : String)
    (f : Option Form) : Goes n ⟨.data, f, none⟩ t [] [] ⟨.data, f, none⟩ :=
  ⟨_, h, forms_chars f u, texts_chars_none _ u⟩

end Html
