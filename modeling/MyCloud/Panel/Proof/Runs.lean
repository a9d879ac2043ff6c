import MyCloud.Panel.Proof.Change
import MyCloud.Panel.Proof.SpecUsers

/-!
# Calls one after another

`runCalls`: a run; `runCalls_keeps`: what every call keeps, a run keeps.
-/

set_option autoImplicit false

namespace Panel

/-! ## Runs -/

/-- Calls one after another, each in its environment. -/
def runCalls (w : World) : List (Env × Call) → World
  | [] => w
  | (e, c) :: cs => runCalls (c.exec e w).2 cs

theorem runCalls_append (w : World) (cs ds : List (Env × Call)) :
    runCalls w (cs ++ ds) = runCalls (runCalls w cs) ds := by
  induction cs generalizing w with
  | nil => rfl
  | cons c cs ih => exact ih _

/-- What every call keeps, a run keeps. -/
theorem runCalls_keeps {I : World → Prop} {cs : List (Env × Call)}
    (h : ∀ p ∈ cs, ∀ w, I w → I (p.2.exec p.1 w).2) {w : World} (hw : I w) :
    I (runCalls w cs) := by
  induction cs generalizing w with
  | nil => exact hw
  | cons p cs ih =>
    exact ih (fun q hq => h q (List.mem_cons_of_mem _ hq)) (h p List.mem_cons_self w hw)

end Panel
