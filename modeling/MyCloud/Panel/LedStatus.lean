import MyCloud.Panel.Devices

/-!
# `led-status`

The cron job that sets the LED from the health of the box. It reads what `panel-op status` reads
(`Cmd`), and the use of two filesystems.
-/

set_option autoImplicit false

namespace Panel

open Shell

/-! ## Commands -/

/-- The commands of `panel-op`, and `df --output=pcent m`. -/
inductive StatusCmd
  | op (c : Cmd)
  | pcent (m : Bytes)

abbrev StatusCmd.Out : StatusCmd → Type
  | .op c => c.Out
  | .pcent _ => Bytes

structure StatusEnv where
  op : Env
  pcent : Bytes → Bytes

def StatusCmd.exec (e : StatusEnv) : (c : StatusCmd) → World → c.Out × World
  | .op c, w => Panel.exec e.op c w
  | .pcent m, w => (e.pcent m, w)

abbrev StatusOp := Script StatusCmd StatusCmd.Out Bytes

/-- A command that `panel-op` has too. -/
def op (c : Cmd) : StatusOp c.Out := Script.sh (R := StatusCmd.Out) (.op c)

/-! ## The health of the box -/

def blue : Bytes := bytes "blue"

def yellow : Bytes := bytes "yellow"

def red : Bytes := bytes "red"

/-- `for s in ...; do pidof "$s" || state=yellow; done`. -/
def serviceState : List Bytes → Bytes → StatusOp Bytes
  | [], state => return state
  | s :: ss, state => do
    if (← op (.probe (.pidof s))).isSome then serviceState ss state
    else serviceState ss yellow

/-- `df ... | tail -1 | tr -dc '0-9'`. -/
def usePercent (df : Bytes) : Bytes := ((lines df).getLast?.getD []).filter isDigit

/-- `for m in ...; do ... [ "$use" -ge 90 ] && state=yellow; done`. -/
def diskState : List Bytes → Bytes → StatusOp Bytes
  | [], state => return state
  | m :: ms, state => do
    let use := usePercent (← Script.sh (R := StatusCmd.Out) (.pcent m))
    if use ≠ [] ∧ 90 ≤ toNat use then diskState ms yellow else diskState ms state

/-- `[U_]`. -/
def isDisk (c : UInt8) : Bool := c = 'U'.toUInt8 || c = '_'.toUInt8

/-- `grep -o '\[[U_]*\]'`. A match has no second `[`, so the search may go on behind the first. -/
def diskGroups : Line → List Bytes
  | [] => []
  | c :: l =>
    let ds := l.takeWhile isDisk
    if c = '['.toUInt8 ∧ (l.drop ds.length).head? = some ']'.toUInt8 then
      (c :: (ds ++ [']'.toUInt8])) :: diskGroups l
    else diskGroups l

/-- `grep -o '\[[U_]*\]' | grep -q '_'`. -/
def degraded (mdstat : Bytes) : Bool :=
  (lines mdstat).any fun l => (diskGroups l).any (·.contains '_'.toUInt8)

/-- `grep -qi FAILED`. -/
def saysFailed (out : Bytes) : Bool := bytes "FAILED" <:+: out.map toUpper

/-- The color: the last finding that applies. -/
def health : StatusOp Bytes := do
  let state ← serviceState ([bytes "smbd", bytes "sshd"]) blue
  let state ← diskState ([bytes "/", bytes "/srv/nas"]) state
  let state := if degraded ((← op (.probe .mdstat)).getD []) then red else state
  let state := if saysFailed ((← op (.probe .smartHealth)).getD []) then red else state
  return state

/-! ## The LED -/

/-- Color-only policy, as in `led_set` of `panel-op`; here a color the driver rejects is ignored. -/
def set_led (c : Bytes) : StatusOp Unit := do
  if (← op .ledCacheGet) = c then return
  let _ ← op (.ledColor c)
  if (← op .ledGetBrightness) ≠ bytes "255" then
    op .sleep
    op .ledBrightness
  op (.ledCache c)

def led_status : StatusOp Unit := do
  set_led (← health)

end Panel
