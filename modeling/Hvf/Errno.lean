/-
# Error numbers

`include/errno.h`.  Functions return 0 or the negative of one of these.
-/

import Mathlib.Tactic.TypeStar

namespace Hvf

/-- `ENOMEM`: out of memory. -/
def enomem : Int := 1
/-- `EBUSY`: the device is in use. -/
def ebusy : Int := 2
/-- `EAGAIN`: try again. -/
def eagain : Int := 3
/-- `EINVAL`: invalid argument. -/
def einval : Int := 4
/-- `EEXIST`: the name is taken. -/
def eexist : Int := 5
/-- `ENOENT`: no such file, command or record. -/
def enoent : Int := 6
/-- `ESUBENOENT`: the subcommand is not in the table. -/
def esubenoent : Int := 7
/-- `EUCHECK`: unit check. -/
def euchck : Int := 8
/-- `EFAULT`: bad address. -/
def efault : Int := 9
/-- `EPERM`: not authorized. -/
def eperm : Int := 10

end Hvf
