import Mathlib.Data.List.DropRight
import MyCloud.Shell.Text

/-!
# Command substitution and `printf '%b'`

`subst t` is `$(...)` of a command that prints `t`: NUL bytes and the newlines at the end are lost.
`expand t` is `printf '%b' t`: the escapes that start with a backslash are replaced, by a scan of the
text with a state (`Esc`).

* `subst_eq`: nothing is lost of a text without NUL that does not end in a newline.
* `subst_terminate`: of lines without NUL only the last newline is lost.
* `expand_hex`: the escape of one byte, `\xHH`, gives that byte, whatever follows it.
-/

set_option autoImplicit false

namespace Shell

/-! ## Command substitution -/

/-- `$(...)`. -/
def subst (t : Bytes) : Bytes := (t.filter (· ≠ 0)).rdropWhile (· = nl)

/-- **A text without NUL and without a newline at the end is kept.** -/
theorem subst_eq {t : Bytes} (h0 : 0 ∉ t) (hl : t.getLast? ≠ some nl) : subst t = t := by
  have hf : t.filter (· ≠ 0) = t :=
    List.filter_eq_self.2 fun c hc => decide_eq_true fun h => h0 (h ▸ hc)
  rw [subst, hf, List.rdropWhile_eq_self_iff]
  intro hne h
  exact hl (by rw [List.getLast?_eq_some_getLast hne, of_decide_eq_true h])

@[simp] theorem subst_newline (t : Bytes) : subst (t ++ [nl]) = subst t := by
  have hn : [nl].filter (· ≠ 0) = [nl] := by decide
  rw [subst, List.filter_append, hn, List.rdropWhile_concat, if_pos (decide_eq_true rfl), subst]

/-- Of lines without NUL only the last newline is lost. -/
theorem subst_terminate {ls : List Bytes} {x : Bytes} (h : ∀ l ∈ ls, 0 ∉ l) (h0 : 0 ∉ x)
    (hx : nl ∉ x) (hne : x ≠ []) : subst (terminate nl (ls ++ [x])) = terminate nl ls ++ x := by
  have hu : terminate nl (ls ++ [x]) = terminate nl ls ++ x ++ [nl] := by simp
  rw [hu, subst_newline, subst_eq]
  · rw [List.mem_append, not_or]
    exact ⟨notMem_terminate (by decide) h, h0⟩
  · rw [List.getLast?_append_of_ne_nil _ hne]
    exact fun hl => hx (List.mem_of_getLast? hl)

/-! ## Hexadecimal digits -/

def hexDigit (n : ℕ) : UInt8 := UInt8.ofNat (if n < 10 then 48 + n else 55 + n)

def hexValue (c : UInt8) : Option ℕ :=
  if 48 ≤ c.toNat ∧ c.toNat ≤ 57 then some (c.toNat - 48)
  else if 65 ≤ c.toNat ∧ c.toNat ≤ 70 then some (c.toNat - 55)
  else if 97 ≤ c.toNat ∧ c.toNat ≤ 102 then some (c.toNat - 87)
  else none

theorem hexValue_hexDigit : ∀ n < 16, hexValue (hexDigit n) = some n := by decide

/-! ## `printf '%b'` -/

def backslash : UInt8 := '\\'.toUInt8

/-- Where the scan of `printf '%b'` is: in plain text, after a backslash, after `\x` with no digit
or one digit read, in an octal escape that may take `left` digits more, after `\u` or `\U` with no
digit read or with some and `left` more to take. -/
inductive Esc
  | plain | slash | hex | hex1 (v : ℕ) | oct (left v : ℕ) | uni (c : UInt8) | code (left v : ℕ)
  deriving DecidableEq

/-- The escapes of one letter. -/
def letterEscapes : List (UInt8 × UInt8) :=
  [('a'.toUInt8, 7), ('b'.toUInt8, 8), ('e'.toUInt8, 27), ('E'.toUInt8, 27), ('f'.toUInt8, 12),
   ('n'.toUInt8, 10), ('r'.toUInt8, 13), ('t'.toUInt8, 9), ('v'.toUInt8, 11),
   (backslash, backslash)]

def octValue (c : UInt8) : Option ℕ :=
  if 48 ≤ c.toNat ∧ c.toNat ≤ 55 then some (c.toNat - 48) else none

/-- `v` in `w` hexadecimal digits. -/
def hexDigits : ℕ → ℕ → Bytes
  | 0, _ => []
  | w + 1, v => hexDigits w (v / 16) ++ [hexDigit (v % 16)]

/-- `u32cconv` in the locale C, the one the scripts run in: a code point that is not ASCII is written
as an escape, from 2^31 on there is none. -/
def codePoint (v : ℕ) : Bytes :=
  if v ≤ 0x7F then [UInt8.ofNat v]
  else if v < 0x10000 then bytes "\\u" ++ hexDigits 4 v
  else if v < 0x80000000 then bytes "\\U" ++ hexDigits 8 v
  else []

def Esc.plainStep (c : UInt8) : Bytes × Option Esc :=
  if c = backslash then ([], some .slash) else ([c], some .plain)

/-- What an escape that ends before its next digit has stood for. -/
def Esc.flush : Esc → Bytes
  | .plain => []
  | .slash => [backslash]
  | .hex => [backslash, 'x'.toUInt8]
  | .hex1 v => [UInt8.ofNat v]
  | .oct _ v => [UInt8.ofNat v]
  | .uni c => [backslash, c]
  | .code _ v => codePoint v

/-- One character: what is printed, and the next state, `none` after `\c`, which ends the output. A
backslash before any other character, a quote or a question mark too, stays. -/
def Esc.step : Esc → UInt8 → Bytes × Option Esc
  | .plain, c => plainStep c
  | .slash, c =>
    if c = 'x'.toUInt8 then ([], some .hex)
    else if c = 'u'.toUInt8 ∨ c = 'U'.toUInt8 then ([], some (.uni c))
    else if c = 'c'.toUInt8 then ([], none)
    else match octValue c, letterEscapes.lookup c with
      | some 0, _ => ([], some (.oct 3 0))
      | some v, _ => ([], some (.oct 2 v))
      | none, some b => ([b], some .plain)
      | none, none => ([backslash, c], some .plain)
  | .hex, c =>
    match hexValue c with
    | some v => ([], some (.hex1 v))
    | none => (flush .hex ++ (plainStep c).1, (plainStep c).2)
  | .hex1 v, c =>
    match hexValue c with
    | some d => ([UInt8.ofNat (16 * v + d)], some .plain)
    | none => (flush (.hex1 v) ++ (plainStep c).1, (plainStep c).2)
  | .oct (left + 1) v, c =>
    match octValue c with
    | some d => ([], some (.oct left (8 * v + d)))
    | none => (flush (.oct (left + 1) v) ++ (plainStep c).1, (plainStep c).2)
  | .oct 0 v, c => (flush (.oct 0 v) ++ (plainStep c).1, (plainStep c).2)
  | .uni u, c =>
    match hexValue c with
    | some v => ([], some (.code (if u = 'u'.toUInt8 then 3 else 7) v))
    | none => (flush (.uni u) ++ (plainStep c).1, (plainStep c).2)
  | .code (left + 1) v, c =>
    match hexValue c with
    | some d => ([], some (.code left (16 * v + d)))
    | none => (flush (.code (left + 1) v) ++ (plainStep c).1, (plainStep c).2)
  | .code 0 v, c => (flush (.code 0 v) ++ (plainStep c).1, (plainStep c).2)

def expandFrom : Esc → Bytes → Bytes
  | s, [] => s.flush
  | s, c :: t =>
    match s.step c with
    | (out, some s') => out ++ expandFrom s' t
    | (out, none) => out

/-- `printf '%b' t`. -/
def expand (t : Bytes) : Bytes := expandFrom .plain t

@[simp] theorem expand_nil : expand [] = [] := rfl

theorem expand_plain {c : UInt8} (h : c ≠ backslash) (t : Bytes) :
    expand (c :: t) = c :: expand t := by
  simp [expand, expandFrom, Esc.step, Esc.plainStep, h]

/-- **`\xHH` gives its byte.** -/
theorem expand_hex (b : UInt8) (t : Bytes) :
    expand (backslash :: 'x'.toUInt8 :: hexDigit (b.toNat / 16) :: hexDigit (b.toNat % 16) :: t) =
      b :: expand t := by
  have hb : b.toNat < 256 := b.toNat_lt
  have hhi := hexValue_hexDigit (b.toNat / 16) (by omega)
  have hlo := hexValue_hexDigit (b.toNat % 16) (by omega)
  have hv : 16 * (b.toNat / 16) + b.toNat % 16 = b.toNat := by omega
  simp [expand, expandFrom, Esc.step, Esc.plainStep, hhi, hlo, hv]

end Shell
