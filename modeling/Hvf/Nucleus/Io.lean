/-
# The I/O queue of a device

`cp/nucleus/io.c`, with `start_sch` and `test_sch` of `include/channel.h`.  An
operation given to `submit_io` waits on `q_out` until the subchannel accepts it,
is `q_cur` while it is in flight, and is marked done by the interrupt that
completes it.

The condition codes of the subchannel, the interruption code and what an
operation's own handler leaves in `err` are data of the events.  `submit_io` is
two events: what it does before it takes `q_lock` and what it does under the
lock; an interrupt or another submission can come between them.
-/

import Hvf.Errno
import Hvf.Lib.StepRun
import Mathlib.Tactic

namespace Hvf

open StepRun

/-! ### The channel subsystem -/

/-- `start_sch`, from the condition code of `SSCH`. -/
def startSch (cc : BitVec 2) : Int :=
  if cc = 1 ∨ cc = 2 then -ebusy else if cc = 3 then -einval else 0

/-- `test_sch`, from the condition code of `TSCH`. -/
def testSch (cc : BitVec 2) : Int := if cc = 3 then -einval else 0

/-- An I/O interruption: the interruption code, the condition code `TSCH` gives
and the device status it stores, and the `err` that the operation's own handler
leaves. -/
structure IoInt where
  ssid : BitVec 32
  param : BitVec 32
  testCc : BitVec 2
  devStatus : BitVec 8
  handlerErr : Int

/-! ### The queue -/

/-- What `io.c` uses of a `struct device` and of the `struct io_op`s given to it.
The last four fields are history, read by no function: the operations in the
order they were prepared, were put on `q_out`, were accepted by `start_sch`, and
had `done` set. -/
structure IoDev (Op : Type*) where
  sch : BitVec 32
  qOut : List Op
  qCur : Option Op
  attention : BitVec 32
  opIdCounter : BitVec 32
  param : Op → BitVec 32
  err : Op → Int
  done : Op → Bool
  prepared : List Op
  submitted : List Op
  started : List Op
  finished : List Op

variable {Op : Type*} [DecidableEq Op]

/-- `__submit_io`; `cc` is the condition code if `start_sch` is issued. -/
def _submitIo (d : IoDev Op) (cc : BitVec 2) : IoDev Op :=
  match d.qCur, d.qOut with
  | some _, _ => d
  | none, [] => d
  | none, ioop :: rest =>
      if startSch cc = 0 then
        { d with qOut := rest, qCur := some ioop, started := d.started ++ [ioop] }
      else { d with err := Function.update d.err ioop (startSch cc) }

/-- `submit_io` before it takes `q_lock`; `__verify_io_op` accepts everything. -/
def prepareIoOp (d : IoDev Op) (ioop : Op) : IoDev Op :=
  { d with
    err := Function.update d.err ioop 0
    opIdCounter := d.opIdCounter + 1
    param := Function.update d.param ioop (d.opIdCounter + 1)
    done := Function.update d.done ioop false
    prepared := d.prepared ++ [ioop] }

/-- `submit_io` from `q_lock` on, and the value it returns. -/
def queueIoOp (d : IoDev Op) (ioop : Op) (cc : BitVec 2) : IoDev Op × Int :=
  (_submitIo { d with qOut := d.qOut ++ [ioop], submitted := d.submitted ++ [ioop] } cc, 0)

/-- `default_io_handler`: the `err` it leaves. -/
def defaultIoHandler (devStatus : BitVec 8) : Int :=
  let err := -eagain
  let err := if devStatus &&& 0x02 ≠ 0 then -euchck else err
  if devStatus &&& 0x04 ≠ 0 then 0 else err

/-- The `err` of `ioop` after `test_sch` and a handler; `own` are the operations
with a handler of their own. -/
def ioOpErr (own : Op → Bool) (ioop : Op) (i : IoInt) : Int :=
  if testSch i.testCc ≠ 0 then testSch i.testCc
  else if own ioop then i.handlerErr else defaultIoHandler i.devStatus

/-- `__cpu_initiated_io`. -/
def _cpuInitiatedIo (own : Op → Bool) (d : IoDev Op) (ioop : Op) (i : IoInt) (cc : BitVec 2) :
    IoDev Op :=
  let d := { d with err := Function.update d.err ioop (ioOpErr own ioop i) }
  if ioOpErr own ioop i = -eagain then d
  else
    let d := _submitIo { d with qCur := none } cc
    { d with done := Function.update d.done ioop true, finished := d.finished ++ [ioop] }

/-- The operation in flight that an interruption is for. -/
def IoDev.completing (d : IoDev Op) (i : IoInt) : Option Op :=
  d.qCur.filter fun ioop => d.param ioop = i.param ∧ d.sch = i.ssid

/-- `__io_int_handler` for this device; `none` is the `BUG_ON` of a
device-initiated operation whose `test_sch` fails. -/
def _ioIntHandler (own : Op → Bool) (d : IoDev Op) (i : IoInt) (cc : BitVec 2) :
    Option (IoDev Op) :=
  match d.completing i with
  | some ioop => some (_cpuInitiatedIo own d ioop i cc)
  | none => if testSch i.testCc ≠ 0 then none else some { d with attention := d.attention + 1 }

/-! ### Runs -/

/-- What can happen; `cc` is the condition code of `start_sch` where one is
issued, `ret` the value `submit_io` returns, `otherDevice` a submission to
another device, which takes a number from `op_id_counter`. -/
inductive IoEvent (Op : Type*)
  | prepare (ioop : Op)
  | queue (ioop : Op) (cc : BitVec 2) (ret : Int)
  | interrupt (i : IoInt) (cc : BitVec 2)
  | otherDevice

/-- **A step of a device's queue.** An operation is prepared once and submitted once, and
what happens then is what the functions of `io.c` do. -/
inductive IoStep (own : Op → Bool) : IoDev Op → IoEvent Op → IoDev Op → Prop
  | prepare {d} (ioop) : ioop ∉ d.prepared → IoStep own d (.prepare ioop) (prepareIoOp d ioop)
  | queue {d d' ret} (ioop cc) : ioop ∈ d.prepared → ioop ∉ d.submitted →
      queueIoOp d ioop cc = (d', ret) → IoStep own d (.queue ioop cc ret) d'
  | interrupt {d d'} (i cc) : _ioIntHandler own d i cc = some d' →
      IoStep own d (.interrupt i cc) d'
  | otherDevice {d} : IoStep own d .otherDevice { d with opIdCounter := d.opIdCounter + 1 }

/-- A device with an empty queue. -/
def IoDev.fresh (sch attention opIdCounter : BitVec 32) (param : Op → BitVec 32) (err : Op → Int)
    (done : Op → Bool) : IoDev Op :=
  { sch, qOut := [], qCur := none, attention, opIdCounter, param, err, done
    prepared := [], submitted := [], started := [], finished := [] }

end Hvf
