/-
# The driver pointer of a device

`__register_device` leaves `dev` of a `struct device` NULL where no type fits the
device or the driver does not want it, and the device stays on the list.
`bdev_read_block` of `cp/fs/bdev.c`, `cmd_enable` of `cp/shell` and
`__io_int_handler` of `cp/nucleus/io.c` follow the pointer all the same,
`display_rdev` tests it.  `rdevOps_null_iff` says exactly when NULL is followed, for
the list that any scan leaves and any sequence of operations on it.

A walk over the list ends after `fuel` entries, for where the scan has left a list
that does not lead back to its head.  The locks are not modelled here.
-/

import Hvf.CString
import Hvf.Drivers.DeviceList
import Hvf.Nucleus.Io

namespace Hvf

open Ring

/-! ### The functions of a driver -/

/-- `type->read`: only the result; `submit_io` returns 0. -/
def DeviceType.read : DeviceType → Option (Int → Int)
  | .d3390 => some fun lba => if lba < 1 then -einval else 0
  | .d3215 | .d9336 | .fakeDevType => none

/-- `type->enable`, which returns an error or a console. -/
def DeviceType.enable : DeviceType → Option (ScanDev → Except Int Unit)
  | .d3215 | .d3390 | .d9336 | .fakeDevType => none

/-- `type->interrupt`. -/
def DeviceType.interrupt : DeviceType → Option (ScanDev → IoInt → ScanDev)
  | .d3215 | .d3390 | .d9336 | .fakeDevType => none

/-- Whether there is a `type->snprintf`. -/
def DeviceType.snprintf : DeviceType → Bool
  | .d3390 | .d9336 => true
  | .d3215 | .fakeDevType => false

/-! ### The list -/

/-- Why an operation does not come to its end: a `BUG_ON`, a walk that goes on after
`fuel` entries, a list pointer that leads nowhere, a driver pointer that is NULL. -/
inductive RdevStop
  | bug
  | wait
  | stray
  | nullDriver
deriving DecidableEq

/-- `dev_get`. -/
def ScanState.devGet (a : ℕ) (s : ScanState) : Except RdevStop ScanState :=
  if (s.mem a).refcnt.toInt < 1 then .error .bug
  else .ok (s.set a { s.mem a with refcnt := (s.mem a).refcnt + 1 })

/-- `dev_put`. -/
def ScanState.devPut (a : ℕ) (s : ScanState) : Except RdevStop ScanState :=
  if ((s.mem a).refcnt - 1).toInt < 1 then .error .bug
  else .ok (s.set a { s.mem a with refcnt := (s.mem a).refcnt - 1 })

/-- **What a device is looked up by**: `find_device_by_sch`, `find_device_by_ccuu` and
`find_device_by_type` walk the same list with these. -/
inductive RdevKey
  | sch (n : BitVec 32)
  | ccuu (n : BitVec 16)
  | type (n : BitVec 16) (model : BitVec 8)

/-- Whether a device is the one a lookup asks for: by subchannel, by device number, or by type
and model. -/
def RdevKey.fits (d : ScanDev) : RdevKey → Bool
  | .sch n => d.sch = n
  | .ccuu n => d.ccuu = n
  | .type n model => d.type = n ∧ d.model = model

/-- The loop of these functions behind the entry `x`: the device found, or `-ENOENT`. -/
def findDevice (key : RdevKey) (s : ScanState) :
    ℕ → DevNode → Except RdevStop (Option (ℕ × ScanState))
  | 0, _ => .error .wait
  | fuel + 1, x =>
    match s.links.next x with
    | none => .error .stray
    | some .devices => .ok none
    | some (.dev a) =>
      if key.fits (s.mem a) then (s.devGet a).map fun s => some (a, s)
      else findDevice key s fuel (.dev a)

/-- `dev->dev`, to be followed. -/
def ScanDev.driver (d : ScanDev) : Except RdevStop DeviceType :=
  match d.dev with
  | none => .error .nullDriver
  | some type => .ok type

/-! ### The operations -/

/-- **A line of `display_rdev`**; `driver` is the one whose `snprintf` fills in the line's
middle part, if there is one. -/
structure RdevLine where
  type : BitVec 16
  ccuu : BitVec 16
  driver : Option DeviceType
  free : Bool
  sch : BitVec 32

/-- **What the caller or the user gets** of an operation: the return code of a read, a
message of `ENABLE`, or the list of `QUERY REAL`. -/
inductive RdevReply
  | ret (err : Int)
  | enableAll
  | notFound (devnum : BitVec 64)
  | alreadyInUse (devnum : BitVec 64)
  | cannotEnable (type : BitVec 16)
  | failed (devnum : BitVec 64) (err : Int)
  | devices (lines : List RdevLine)
  | notImplemented

/-- `bdev_read_block`. -/
def ScanDev.bdevReadBlock (dev : ScanDev) (lba : Int) : Except RdevStop Int :=
  match dev.driver with
  | .error e => .error e
  | .ok type =>
    match type.read with
    | none => .ok (-einval)
    | some read => .ok (read lba)

/-- The loop of `__extract_hex`; `len` counts from -1. -/
def extractHexLoop : List UInt8 → BitVec 64 → Int → Except Int (BitVec 64)
  | [], res, len => if len = -1 then .error (-einval) else .ok res
  | c :: str, res, len =>
    if c = 0 ∨ c = 0x20 ∨ c = 0x09 then if len = -1 then .error (-einval) else .ok res
    else if 0x30 ≤ c ∧ c ≤ 0x39 then
      extractHexLoop str (res <<< 4 ||| (c - 0x30).toBitVec.setWidth 64) (len + 1)
    else if 0x41 ≤ c ∧ c ≤ 0x46 then
      extractHexLoop str (res <<< 4 ||| (c - 0x41 + 10).toBitVec.setWidth 64) (len + 1)
    else if 0x61 ≤ c ∧ c ≤ 0x66 then
      extractHexLoop str (res <<< 4 ||| (c - 0x61 + 10).toBitVec.setWidth 64) (len + 1)
    else .error (-einval)

/-- `__extract_hex`: the error or the number. -/
def extractHex (str : List UInt8) : Except Int (BitVec 64) := extractHexLoop str 0 (-1)

/-- `cmd_enable` for a device that was found. -/
def enableDevice (devnum : BitVec 64) (a : ℕ) (s : ScanState) :
    Except RdevStop (ScanState × RdevReply) :=
  if (s.mem a).inUse then (s.devPut a).map (·, .alreadyInUse devnum)
  else
    match (s.mem a).driver with
    | .error e => .error e
    | .ok type =>
      match type.enable with
      | none => (s.devPut a).map (·, .cannotEnable (s.mem a).type)
      | some enable =>
        match enable (s.mem a) with
        | .error err => (s.devPut a).map (·, .failed devnum err)
        | .ok () => .ok (s, .ret 0)

/-- `"ALL"`. -/
def allOperand : List UInt8 := [0x41, 0x4c, 0x4c]

/-- `cmd_enable`; `auth` is the test of `SHELL_CMD_AUTH`. -/
def cmdEnable (fuel : ℕ) (auth : Bool) (cmd : List UInt8) (s : ScanState) :
    Except RdevStop (ScanState × RdevReply) :=
  if ¬ auth then .ok (s, .ret (-eperm))
  else if strcasecmp cmd allOperand = 0 then .ok (s, .enableAll)
  else
    match extractHex cmd with
    | .error err => .ok (s, .ret err)
    | .ok devnum =>
      if devnum &&& ~~~0xffff ≠ 0 then .ok (s, .ret (-einval))
      else
        (findDevice (.ccuu (devnum.setWidth 16)) s fuel .devices).bind fun r =>
          match r with
          | none => .ok (s, .notFound devnum)
          | some (a, s) => enableDevice devnum a s

/-- `display_rdev`. -/
def displayRdev (d : ScanDev) : RdevLine where
  type := d.type
  ccuu := d.ccuu
  driver := d.dev.filter DeviceType.snprintf
  free := !d.inUse
  sch := d.sch

/-- `list_devices` with `display_rdev`, behind the entry `x`. -/
def listRdevs : ℕ → DevNode → ScanState → Except RdevStop (ScanState × List RdevLine)
  | 0, _, _ => .error .wait
  | fuel + 1, x, s =>
    match s.links.next x with
    | none => .error .stray
    | some .devices => .ok (s, [])
    | some (.dev a) =>
      match (s.devGet a).bind fun s => (s.devPut a).map (·, displayRdev (s.mem a)) with
      | .error e => .error e
      | .ok (s, line) => (listRdevs fuel (.dev a) s).map fun (s, lines) => (s, line :: lines)

/-- The operands of `QUERY REAL` for which no device is looked at: `"CPUS"`, `"STOR"`,
`"STORA"`, `"STORAG"`, `"STORAGE"`. -/
def otherReal : List (List UInt8) :=
  [[0x43, 0x50, 0x55, 0x53], [0x53, 0x54, 0x4f, 0x52], [0x53, 0x54, 0x4f, 0x52, 0x41],
    [0x53, 0x54, 0x4f, 0x52, 0x41, 0x47], [0x53, 0x54, 0x4f, 0x52, 0x41, 0x47, 0x45]]

/-- `cmd_query_real`, as far as devices are concerned. -/
def cmdQueryReal (fuel : ℕ) (auth : Bool) (cmd : List UInt8) (s : ScanState) :
    Except RdevStop (ScanState × RdevReply) :=
  if ¬ auth then .ok (s, .ret (-eperm))
  else if cmd.headD 0 = 0 ∨ strcasecmp cmd allOperand = 0 then
    (listRdevs fuel .devices s).map fun (s, lines) => (s, .devices lines)
  else if ∃ operand ∈ otherReal, strcasecmp cmd operand = 0 then .ok (s, .ret 0)
  else
    match extractHex cmd with
    | .error err => .ok (s, .ret err)
    | .ok devnum =>
      if devnum &&& ~~~0xffff ≠ 0 then .ok (s, .ret (-einval)) else .ok (s, .notImplemented)

/-- **What the operations find outside the list**: which I/O operations have a handler of
their own (`own`), their parameter `orb.param`, and how many nodes a walk may look at. -/
structure RdevEnv where
  fuel : ℕ
  own : ℕ → Bool
  param : ℕ → BitVec 32

/-- The operation in flight that an interruption is for. -/
def ScanDev.completing (env : RdevEnv) (d : ScanDev) (i : IoInt) : Option ℕ :=
  d.qCur.filter fun ioop => env.param ioop = i.param ∧ d.sch = i.ssid

/-- `__io_int_handler` for a device that was found; `next` is what `__submit_io` leaves
in `q_cur`. -/
def interruptDevice (env : RdevEnv) (i : IoInt) (next : Option ℕ) (a : ℕ) (s : ScanState) :
    Except RdevStop ScanState :=
  match (s.mem a).completing env i with
  | some ioop =>
    if ioOpErr env.own ioop i = -eagain then s.devPut a
    else (s.set a { s.mem a with qCur := next }).devPut a
  | none =>
    if testSch i.testCc ≠ 0 then .error .bug
    else
      let s := s.set a { s.mem a with attention := (s.mem a).attention + 1 }
      match (s.mem a).driver with
      | .error e => .error e
      | .ok type =>
        match type.interrupt with
        | none => s.devPut a
        | some interrupt => (s.set a (interrupt (s.mem a) i)).devPut a

/-- `__io_int_handler`. -/
def rdevIoInt (env : RdevEnv) (i : IoInt) (next : Option ℕ) (s : ScanState) :
    Except RdevStop ScanState :=
  (findDevice (.sch i.ssid) s env.fuel .devices).bind fun r =>
    match r with
    | none => .error .bug
    | some (a, s) => interruptDevice env i next a s

/-- What happens after the scan.  With `queue` and `use` the queue of a device changes
and somebody starts or stops using it; before a block is read the device is looked up,
as in `load_config`. -/
inductive RdevOp
  | queue (a : ℕ) (qCur : Option ℕ)
  | use (a : ℕ) (inUse : Bool)
  | bdevReadBlock (key : RdevKey) (lba : Int)
  | cmdEnable (auth : Bool) (cmd : List UInt8)
  | cmdQueryReal (auth : Bool) (cmd : List UInt8)
  | interrupt (i : IoInt) (next : Option ℕ)

/-- **One operation on the real devices**: a change of a queue or of the use mark, a block read,
the console, an interruption, `enable` or a listing. -/
def rdevOp (env : RdevEnv) (s : ScanState) : RdevOp → Except RdevStop (ScanState × RdevReply)
  | .queue a qCur => .ok (s.set a { s.mem a with qCur := qCur }, .ret 0)
  | .use a inUse => .ok (s.set a { s.mem a with inUse := inUse }, .ret 0)
  | .bdevReadBlock key lba =>
    (findDevice key s env.fuel .devices).bind fun r =>
      match r with
      | none => .ok (s, .ret (-enoent))
      | some (a, s) => ((s.mem a).bdevReadBlock lba).map fun ret => (s, .ret ret)
  | .cmdEnable auth cmd => Hvf.cmdEnable env.fuel auth cmd s
  | .cmdQueryReal auth cmd => Hvf.cmdQueryReal env.fuel auth cmd s
  | .interrupt i next => (rdevIoInt env i next s).map (·, .ret 0)

/-- A sequence of operations. -/
def rdevOps (env : RdevEnv) (s : ScanState) (ops : List RdevOp) : Except RdevStop ScanState :=
  ops.foldlM (fun s op => (rdevOp env s op).map Prod.fst) s

/-! ### Which devices have a driver -/

/-- A type that fits is registered during the scan, and its driver wants the device: a
3390 by its model and by the capacity formula in byte 22 of its characteristics `rdc`, a 9336
by its model.  The fake type fits a device of type 0. -/
def ScanDev.HasDriver (rdc : BitVec 32 → ℕ → UInt8) (d : ScanDev) : Prop :=
  d.type = 0x3215 ∧ d.model = 0 ∨
    d.type = 0x3390 ∧ d.model ∈ [0x02, 0x06, 0x0a, 0x0c] ∧ rdc d.sch 22 ∈ [1, 2] ∨
    d.type = 0x9336 ∧ d.model ∈ [0x00, 0x10] ∨ d.type = 0 ∧ d.model = 0

/-- The driver that registration finds, spelled out by type and model: the 3390 and the 9336
take every model. -/
theorem findDeviceType_eq (d : ScanDev) : findDeviceType scanTypes d =
    if d.type = 0x3215 ∧ d.model = 0 then some .d3215
    else if d.type = 0x3390 then some .d3390
    else if d.type = 0x9336 then some .d9336
    else if d.type = 0 ∧ d.model = 0 then some .fakeDevType else none := by
  have hcons : ∀ (p : DeviceType → Bool) t ts,
      (t :: ts).find? p = if p t then some t else ts.find? p := by
    intro p t ts
    rw [List.find?_cons]
    cases p t with
    | false => rfl
    | true => rfl
  simp only [findDeviceType, scanTypes, hcons, List.find?_nil, DeviceType.type,
    DeviceType.model, DeviceType.allModels, decide_eq_true_eq, Bool.false_eq_true, false_or,
    true_or, and_true, eq_comm (b := d.type), eq_comm (b := d.model)]

/-- Registration stores a driver exactly when the driver's own check returned 0. -/
theorem registered_dev_isSome (d : ScanDev) (type : DeviceType) (err : Int) :
    (d.registered (some type) err).dev.isSome ↔ err = 0 := by
  by_cases herr : err = 0
  · simp [ScanDev.registered, herr]
  · simp [ScanDev.registered, herr]

/-- The models are the same where `d3390Geometry` compares them. -/
theorem mem_d3390Models (model : BitVec 8) :
    UInt8.ofBitVec model ∈ [0x02, 0x06, 0x0a, 0x0c] ↔
      model ∈ ([0x02, 0x06, 0x0a, 0x0c] : List (BitVec 8)) := by
  simp only [List.mem_cons, List.not_mem_nil, or_false, ← UInt8.toBitVec_inj]
  rfl

/-- The geometry of a device of one of the models is known by its formula. -/
theorem d3390Geometry_ok_iff {model : UInt8} (hmodel : model ∈ [0x02, 0x06, 0x0a, 0x0c])
    (buf : ℕ → UInt8) : (∃ eckd, d3390Geometry model 0 buf = .ok eckd) ↔ buf 22 ∈ [1, 2] := by
  rw [d3390Geometry, if_neg (not_not.2 hmodel), if_neg (not_not.2 rfl)]
  dsimp only
  split_ifs with hone htwo
  · exact iff_of_true ⟨_, rfl⟩ (by simp [hone])
  · exact iff_of_true ⟨_, rfl⟩ (by simp [htwo])
  · refine iff_of_false (fun ⟨_, h⟩ => by cases h) ?_
    simp [hone, htwo]

/-- What it is refused with is an error. -/
theorem d3390Geometry_error {model : UInt8} (hmodel : model ∈ [0x02, 0x06, 0x0a, 0x0c])
    {buf : ℕ → UInt8} {err : Int} (h : d3390Geometry model 0 buf = .error err) : err ≠ 0 := by
  rw [d3390Geometry, if_neg (not_not.2 hmodel), if_neg (not_not.2 rfl)] at h
  dsimp only at h
  split_ifs at h
  obtain rfl := Except.error.inj h
  decide

/-- **The driver of the 3390 takes a device** of one of its models whose characteristics
have a formula that it knows, and no other one. -/
theorem d3390Reg_eq_zero {d : ScanDev} {buf : ℕ → UInt8} {err : Int}
    (h : d3390Reg buf d = .ok err) :
    err = 0 ↔ d.model ∈ [0x02, 0x06, 0x0a, 0x0c] ∧ buf 22 ∈ [1, 2] := by
  rw [d3390Reg] at h
  split at h
  case isTrue hnot =>
    obtain rfl := Except.ok.inj h
    exact iff_of_false (by decide) fun hmem => hnot hmem.1
  case isFalse hmem =>
    have hmodel := (mem_d3390Models d.model).2 (not_not.1 hmem)
    obtain ⟨⟨⟩, -, herr⟩ := bind_eq_ok.1 h
    rw [← d3390Geometry_ok_iff hmodel]
    cases hgeometry : d3390Geometry (.ofBitVec d.model) 0 buf with
    | ok eckd =>
      rw [hgeometry] at herr
      exact iff_of_true (Except.ok.inj herr).symm ⟨not_not.1 hmem, eckd, rfl⟩
    | error e =>
      rw [hgeometry] at herr
      obtain rfl := Except.ok.inj herr
      refine iff_of_false (d3390Geometry_error hmodel hgeometry) ?_
      rintro ⟨-, eckd, heckd⟩
      cases heckd

/-- The 9336 driver takes the models 0 and 0x10 and no other. -/
theorem d9336Reg_eq_zero {d : ScanDev} {buf : ℕ → UInt8} {err : Int}
    (h : d9336Reg buf d = .ok err) :
    err = 0 ↔ d.model ∈ [0x00, 0x10] := by
  rw [d9336Reg] at h
  split at h
  case isTrue hnot =>
    obtain rfl := Except.ok.inj h
    exact iff_of_false (by decide) hnot
  case isFalse hmem =>
    obtain ⟨⟨⟩, -, herr⟩ := bind_eq_ok.1 h
    exact iff_of_true (Except.ok.inj herr).symm (not_not.1 hmem)

/-- **The pointer that a registration leaves** is not NULL exactly where there is a
driver. -/
theorem registered_isSome {rdc : BitVec 32 → ℕ → UInt8} {d d' : ScanDev} {err : Int}
    (hreg : callReg (findDeviceType scanTypes d) (rdc d.sch) d' = .ok err)
    (hmodel : d'.model = d.model) :
    (d.registered (findDeviceType scanTypes d) err).dev.isSome ↔ d.HasDriver rdc := by
  rw [findDeviceType_eq] at hreg ⊢
  unfold ScanDev.HasDriver
  split_ifs at hreg ⊢ with h3215 h3390 h9336 hfake
  · obtain rfl := Except.ok.inj hreg
    rw [registered_dev_isSome]
    exact iff_of_true rfl (Or.inl h3215)
  · rw [registered_dev_isSome, d3390Reg_eq_zero hreg, hmodel]
    simp [h3390]
  · have hreg' : d9336Reg (rdc d.sch) d' = .ok err := hreg
    rw [registered_dev_isSome, d9336Reg_eq_zero hreg', hmodel]
    simp [h9336]
  · obtain rfl := Except.ok.inj hreg
    rw [registered_dev_isSome]
    exact iff_of_true rfl (Or.inr (Or.inr (Or.inr hfake)))
  · refine iff_of_false ?_ ?_
    · simp [ScanDev.registered]
    · rintro (h | ⟨h, -⟩ | ⟨h, -⟩ | h)
      · exact h3215 h
      · exact h3390 h
      · exact h9336 h
      · exact hfake h

/-! ### The invariant -/

/-- The head, or one of the allocations `R`. -/
def onList (R : ℕ → Prop) : DevNode → Prop
  | .devices => True
  | .dev a => R a

/-- The list does not lead out of the allocations `R`, and these have the driver pointer
that the registration has left. -/
structure DriverInv (rdc : BitVec 32 → ℕ → UInt8) (R : ℕ → Prop) (s : ScanState) : Prop where
  closed : Closed (onList R) s.links
  driver : ∀ a, R a → ((s.mem a).dev.isSome ↔ (s.mem a).HasDriver rdc)

/-- Putting a device on the list adds its node to the ones listed. -/
theorem onList_insert (R : ℕ → Prop) (a : ℕ) :
    (fun x => onList R x ∨ x = .dev a) = onList fun b => R b ∨ b = a := by
  funext x
  cases x with
  | devices => simp [onList]
  | dev b => simp [onList]

/-- **Registration and the driver pointer.** Behind `_register_device` every listed device has a
driver exactly when its type, model and characteristics give one. -/
theorem registerDevice_driver {rdc : BitVec 32 → ℕ → UInt8} {R : ℕ → Prop} {s s' : ScanState}
    {a : ℕ} {remove : Bool}
    {err : Int} (hclosed : Closed (onList R) s.links)
    (hdriver : ∀ b, R b → b ≠ a → ((s.mem b).dev.isSome ↔ (s.mem b).HasDriver rdc))
    (hremove : remove = true → R a)
    (h : _registerDevice rdc scanTypes a remove s = .ok (err, s')) :
    DriverInv rdc (fun b => R b ∨ b = a) s' := by
  obtain ⟨hreg, k, k', hdel, hadd, rfl⟩ := registerDevice_eq_ok.1 h
  refine ⟨?_, fun b hb => ?_⟩
  · have hk : Closed (onList R) k := by
      split at hdel
      case isTrue hr => exact hclosed.del (show onList R (.dev a) from hremove hr) hdel
      case isFalse => exact Option.some.inj hdel ▸ hclosed
    rw [ScanState.relink_links, ← onList_insert]
    exact hk.addTail (show onList R .devices from trivial) hadd
  · rw [ScanState.relink_mem]
    by_cases hba : b = a
    · subst hba
      rw [ScanState.set_mem_self]
      exact registered_isSome hreg rfl
    · rw [s.set_mem_of_ne _ hba]
      exact hdriver b (hb.resolve_right hba) hba

/-- **The invariant of the scan's driver pointers.** Besides `DriverInv`, the allocations on
the list, and the one in hand, are among those made so far. -/
structure ScanDriver (rdc : BitVec 32 → ℕ → UInt8) (R : ℕ → Prop) (s : ScanState) : Prop where
  inv : DriverInv rdc R s
  lt : ∀ a, R a → a < s.count
  dev_lt : ∀ a, s.dev = some a → a < s.count

/-- An allocation lists nothing, so what is known of the listed devices stays known. -/
theorem scanAlloc_driver {env : ScanEnv} {R : ℕ → Prop} {s s' : ScanState} {a : ℕ}
    (h : ScanDriver env.rdc R s) (halloc : scanAlloc env s = (a, s')) :
    ScanDriver env.rdc R s' ∧ s'.dev = some a := by
  unfold scanAlloc at halloc
  split at halloc
  case h_1 b hdev =>
    obtain ⟨rfl, rfl⟩ := Prod.mk.inj halloc
    exact ⟨h, hdev⟩
  case h_2 hdev =>
    obtain ⟨rfl, rfl⟩ := Prod.mk.inj halloc
    refine ⟨⟨⟨h.inv.closed, fun b hb => ?_⟩, fun b hb => ?_, fun b hb => ?_⟩, rfl⟩
    · have hne : b ≠ s.count := (h.lt b hb).ne
      simpa only [Function.update_of_ne hne] using h.inv.driver b hb
    · exact Nat.lt_succ_of_lt (h.lt b hb)
    · exact Option.some.inj hb ▸ Nat.lt_succ_self s.count

/-- The step of the scan that registers: the new device joins the listed ones, with its driver
pointer as its data say. -/
theorem ScanDriver.register {rdc : BitVec 32 → ℕ → UInt8} {R : ℕ → Prop} {s s' : ScanState}
    {a : ℕ} {d : ScanDev} {remove : Bool} {err : Int} (h : ScanDriver rdc R s)
    (hdev : s.dev = some a)
    (hreg : _registerDevice rdc scanTypes a remove (s.set a d) = .ok (err, s'))
    (hremove : remove = true → R a) :
    ScanDriver rdc (fun b => R b ∨ b = a) s' ∧ s'.dev = some a := by
  have hothers : ∀ b, R b → b ≠ a →
      (((s.set a d).mem b).dev.isSome ↔ ((s.set a d).mem b).HasDriver rdc) := by
    intro b hb hne
    rw [s.set_mem_of_ne d hne]
    exact h.inv.driver b hb
  have hinv := registerDevice_driver (show Closed (onList R) (s.set a d).links from h.inv.closed)
    hothers hremove hreg
  obtain ⟨-, k, k', -, -, rfl⟩ := registerDevice_eq_ok.1 hreg
  refine ⟨⟨hinv, fun b hb => ?_, h.dev_lt⟩, hdev⟩
  rcases hb with hb | rfl
  · exact h.lt b hb
  · exact h.dev_lt b hdev

/-- **One subchannel of the scan** keeps what is known of the driver pointers. -/
theorem scanSch_driver {env : ScanEnv} {R : ℕ → Prop} {s s' : ScanState} {sch : BitVec 32}
    (h : ScanDriver env.rdc R s) (hs' : scanSch env scanTypes s sch = .ok s') :
    ∃ R, ScanDriver env.rdc R s' := by
  simp only [scanSch] at hs'
  split at hs'
  case isTrue => exact Except.ok.inj hs' ▸ ⟨R, h⟩
  case isFalse =>
    split at hs'
    case isTrue => exact Except.ok.inj hs' ▸ ⟨R, h⟩
    case isFalse =>
      rcases halloc : scanAlloc env s with ⟨a, s₁⟩
      obtain ⟨h₁, hdev⟩ := scanAlloc_driver h halloc
      simp only [halloc] at hs'
      split at hs'
      case isTrue => exact Except.ok.inj hs' ▸ ⟨R, h₁⟩
      case isFalse =>
        simp only [bind_eq_ok] at hs'
        obtain ⟨⟨err, s₂⟩, hreg, ⟨⟩, -, ⟨⟩, -, res, -, hs'⟩ := hs'
        obtain ⟨h₂, hdev₂⟩ := h₁.register hdev hreg fun h => by cases h
        cases res with
        | error e => exact Except.ok.inj hs' ▸ ⟨_, h₂⟩
        | ok res =>
          obtain ⟨⟨err', s₃⟩, hreg', hs'⟩ := bind_eq_ok.1 hs'
          obtain ⟨h₃, -⟩ := h₂.register hdev₂ hreg' fun _ => Or.inr rfl
          obtain rfl := Except.ok.inj hs'
          exact ⟨_, ⟨h₃.inv.closed, h₃.inv.driver⟩, h₃.lt, fun d h => by cases h⟩

/-- **Every scan** that comes to its end leaves the pointers so. -/
theorem scanDevices_driver {env : ScanEnv} {types : List DeviceType} {s : ScanState}
    (h : scanDevices env = .ok (types, s)) : ∃ R, DriverInv env.rdc R s := by
  obtain ⟨-, s, hs, rfl⟩ := scanDevices_eq_ok.1 h
  have hinit : ScanDriver env.rdc (fun _ => False) (scanInit env) := by
    refine ⟨⟨?_, nofun⟩, nofun, nofun⟩
    rintro (_ | a) y hx hy
    · have hy' : y = .devices := by simpa [scanInit, Links.put, eq_comm] using hy
      exact hy' ▸ hx
    · exact hx.elim
  have hall : ∀ (schs : List (BitVec 32)) s₀, (∃ R, ScanDriver env.rdc R s₀) →
      schs.foldlM (scanSch env scanTypes) s₀ = .ok s → ∃ R, ScanDriver env.rdc R s := by
    intro schs
    induction schs with
    | nil => exact fun s₀ h hs => Except.ok.inj hs ▸ h
    | cons sch schs ih =>
      rintro s₀ ⟨R, h⟩ hs
      rw [List.foldlM_cons] at hs
      obtain ⟨s₁, hs₁, hs⟩ := bind_eq_ok.1 hs
      exact ih s₁ (scanSch_driver h hs₁) hs
  obtain ⟨R, hR⟩ := hall schids _ ⟨_, hinit⟩ hs
  obtain ⟨hlinks, hmem, -⟩ := scanFree_eq s
  exact ⟨R, hlinks ▸ hR.inv.closed, hmem ▸ hR.inv.driver⟩

/-! ### The operations leave the pointers alone -/

/-- **Nothing that matters for a driver has changed**: no link of the list, and of no device
the subchannel, the driver pointer, the type or the model. -/
structure KeepsDrivers (s s' : ScanState) : Prop where
  links : s'.links = s.links
  sch : ∀ a, (s'.mem a).sch = (s.mem a).sch
  dev : ∀ a, (s'.mem a).dev = (s.mem a).dev
  type : ∀ a, (s'.mem a).type = (s.mem a).type
  model : ∀ a, (s'.mem a).model = (s.mem a).model

/-- A step that does nothing keeps the drivers. -/
theorem KeepsDrivers.refl (s : ScanState) : KeepsDrivers s s :=
  ⟨rfl, fun _ => rfl, fun _ => rfl, fun _ => rfl, fun _ => rfl⟩

/-- Two steps that keep the drivers keep them together. -/
theorem KeepsDrivers.trans {s s' s'' : ScanState} (h : KeepsDrivers s s')
    (h' : KeepsDrivers s' s'') : KeepsDrivers s s'' :=
  ⟨h'.links.trans h.links, fun a => (h'.sch a).trans (h.sch a),
    fun a => (h'.dev a).trans (h.dev a), fun a => (h'.type a).trans (h.type a),
    fun a => (h'.model a).trans (h.model a)⟩

/-- A store that leaves subchannel, driver, type and model of a device keeps the drivers. -/
theorem KeepsDrivers.set (s : ScanState) {a : ℕ} {d : ScanDev} (hsch : d.sch = (s.mem a).sch)
    (hdev : d.dev = (s.mem a).dev) (htype : d.type = (s.mem a).type)
    (hmodel : d.model = (s.mem a).model) :
    KeepsDrivers s (s.set a d) := by
  have hfield : ∀ {α : Type} (f : ScanDev → α), f d = f (s.mem a) →
      ∀ b, f ((s.set a d).mem b) = f (s.mem b) := by
    intro α f hf b
    by_cases hba : b = a
    · rw [hba, s.set_mem_self, hf]
    · rw [s.set_mem_of_ne d hba]
  exact ⟨rfl, hfield ScanDev.sch hsch, hfield ScanDev.dev hdev, hfield ScanDev.type htype,
    hfield ScanDev.model hmodel⟩

/-- What keeps the drivers keeps the invariant about them. -/
theorem DriverInv.keeps {rdc : BitVec 32 → ℕ → UInt8} {R : ℕ → Prop} {s s' : ScanState}
    (h : DriverInv rdc R s) (hkeeps : KeepsDrivers s s') : DriverInv rdc R s' := by
  refine ⟨hkeeps.links ▸ h.closed, fun a ha => ?_⟩
  rw [hkeeps.dev, ScanDev.HasDriver, hkeeps.sch, hkeeps.type, hkeeps.model]
  exact h.driver a ha

/-- A reference taken changes the count of that device and nothing else. -/
theorem devGet_eq_ok {s s' : ScanState} {a : ℕ} (h : s.devGet a = .ok s') :
    s' = s.set a { s.mem a with refcnt := (s.mem a).refcnt + 1 } := by
  rw [ScanState.devGet] at h
  split at h
  case isTrue => exact nomatch h
  case isFalse => exact (Except.ok.inj h).symm

/-- A reference taken keeps the drivers. -/
theorem devGet_keeps {s s' : ScanState} {a : ℕ} (h : s.devGet a = .ok s') : KeepsDrivers s s' :=
  devGet_eq_ok h ▸ .set s rfl rfl rfl rfl

/-- A reference given back changes the count of that device and nothing else. -/
theorem devPut_eq_ok {s s' : ScanState} {a : ℕ} (h : s.devPut a = .ok s') :
    s' = s.set a { s.mem a with refcnt := (s.mem a).refcnt - 1 } := by
  rw [ScanState.devPut] at h
  split at h
  case isTrue => exact nomatch h
  case isFalse => exact (Except.ok.inj h).symm

/-- A reference given back keeps the drivers. -/
theorem devPut_keeps {s s' : ScanState} {a : ℕ} (h : s.devPut a = .ok s') : KeepsDrivers s s' :=
  devPut_eq_ok h ▸ .set s rfl rfl rfl rfl

/-- Taking a reference follows no driver pointer. -/
theorem devGet_ne_null (s : ScanState) (a : ℕ) : s.devGet a ≠ .error .nullDriver := by
  rw [ScanState.devGet]
  split
  case isTrue => simp
  case isFalse => simp

/-- Giving a reference back follows no driver pointer. -/
theorem devPut_ne_null (s : ScanState) (a : ℕ) : s.devPut a ≠ .error .nullDriver := by
  rw [ScanState.devPut]
  split
  case isTrue => simp
  case isFalse => simp

/-- A mapped step returns exactly what the step returns, mapped. -/
theorem map_eq_ok {α β : Type} {x : Except RdevStop α} {f : α → β} {b : β} :
    x.map f = .ok b ↔ ∃ a, x = .ok a ∧ f a = b := by
  cases x with
  | error e => exact iff_of_false nofun nofun
  | ok a => simp [Except.map]

/-- A mapped step follows a `NULL` driver exactly when the step does. -/
theorem map_eq_null {α β : Type} {x : Except RdevStop α} {f : α → β} :
    x.map f = .error .nullDriver ↔ x = .error .nullDriver := by
  cases x with
  | error e => simp [Except.map]
  | ok a => simp [Except.map]

/-- **A search** follows no driver pointer, and what it finds is on the list. -/
theorem findDevice_cases {R : ℕ → Prop} {s : ScanState} (h : Closed (onList R) s.links)
    (key : RdevKey) (fuel : ℕ) {x : DevNode} (hx : onList R x) :
    findDevice key s fuel x ≠ .error .nullDriver ∧
      ∀ a s', findDevice key s fuel x = .ok (some (a, s')) → R a ∧ s.devGet a = .ok s' := by
  induction fuel generalizing x with
  | zero => exact ⟨nofun, nofun⟩
  | succ fuel ih =>
    rw [findDevice]
    split
    case h_1 => exact ⟨nofun, nofun⟩
    case h_2 => exact ⟨nofun, nofun⟩
    case h_3 a hnext =>
      have ha : R a := h x (.dev a) hx (Or.inl hnext)
      split
      case isTrue =>
        refine ⟨fun hnull => devGet_ne_null s a (map_eq_null.1 hnull), fun b s' hb => ?_⟩
        obtain ⟨s₁, hget, heq⟩ := map_eq_ok.1 hb
        obtain ⟨rfl, rfl⟩ := Prod.mk.inj (Option.some.inj heq)
        exact ⟨ha, hget⟩
      case isFalse => exact ih (show onList R (.dev a) from ha)

/-- A line of the listing follows no driver pointer and keeps the drivers. -/
theorem devShow_spec (a : ℕ) (s : ScanState) {r : Except RdevStop (ScanState × RdevLine)}
    (hr : ((s.devGet a).bind fun s => (s.devPut a).map (·, displayRdev (s.mem a))) = r) :
    r ≠ .error .nullDriver ∧ ∀ s' line, r = .ok (s', line) → KeepsDrivers s s' := by
  subst hr
  rcases hget : s.devGet a with e | s₁
  · refine ⟨fun h => ?_, nofun⟩
    obtain rfl := Except.error.inj h
    exact devGet_ne_null s a hget
  · refine ⟨fun h => devPut_ne_null s₁ a (map_eq_null.1 h), fun s' line h => ?_⟩
    obtain ⟨s₂, hput, heq⟩ := map_eq_ok.1 h
    obtain ⟨rfl, -⟩ := Prod.mk.inj heq
    exact (devGet_keeps hget).trans (devPut_keeps hput)

/-- The walk over the list that prints the devices follows no driver pointer and keeps the
drivers, by induction on the nodes. -/
theorem listRdevs_spec (fuel : ℕ) (x : DevNode) (s : ScanState) :
    listRdevs fuel x s ≠ .error .nullDriver ∧
      ∀ s' lines, listRdevs fuel x s = .ok (s', lines) → KeepsDrivers s s' := by
  induction fuel generalizing x s with
  | zero => exact ⟨nofun, nofun⟩
  | succ fuel ih =>
    rw [listRdevs]
    split
    case h_1 => exact ⟨nofun, nofun⟩
    case h_2 =>
      refine ⟨nofun, fun s' lines h => ?_⟩
      obtain ⟨rfl, -⟩ := Prod.mk.inj (Except.ok.inj h)
      exact .refl s
    case h_3 a hnext =>
      split
      case h_1 e he =>
        refine ⟨fun h => ?_, nofun⟩
        obtain rfl := Except.error.inj h
        exact (devShow_spec a s he).1 rfl
      case h_2 s₁ line hline =>
        have hkeeps := (devShow_spec a s hline).2 s₁ line rfl
        obtain ⟨hnull, hrest⟩ := ih (.dev a) s₁
        refine ⟨fun h => hnull (map_eq_null.1 h), fun s' lines h => ?_⟩
        obtain ⟨⟨s₂, lines'⟩, hlist, heq⟩ := map_eq_ok.1 h
        obtain ⟨rfl, -⟩ := Prod.mk.inj heq
        exact hkeeps.trans (hrest s₂ lines' hlist)

/-- A reference count is no part of the line printed for a device. -/
theorem display_set {s : ScanState} {a : ℕ} {n : BitVec 32} (b : ℕ) :
    displayRdev ((s.set a { s.mem a with refcnt := n }).mem b) = displayRdev (s.mem b) := by
  by_cases hba : b = a
  · rw [hba, s.set_mem_self]
    rfl
  · rw [s.set_mem_of_ne _ hba]

/-- **Every device is reported,** whether it has a driver or not. -/
theorem listRdevs_lines {fuel : ℕ} {x : DevNode} {s s' : ScanState} {lines : List RdevLine}
    {l : List ℕ} (h : listRdevs fuel x s = .ok (s', lines))
    (hl : Forward s.links x (l.map .dev) .devices) :
    lines = l.map fun a => displayRdev (s.mem a) := by
  induction fuel generalizing x s lines l with
  | zero => exact nomatch h
  | succ fuel ih =>
    rw [listRdevs] at h
    cases l with
    | nil =>
      rw [show s.links.next x = some .devices from hl] at h
      exact (Prod.mk.inj (Except.ok.inj h)).2.symm
    | cons a l =>
      rw [hl.1] at h
      dsimp only at h
      rcases hget : s.devGet a with e | s₁
      · rw [hget] at h
        exact nomatch h
      · rcases hput : s₁.devPut a with e | s₂
        · simp only [hget, Except.bind, hput, Except.map] at h
          exact nomatch h
        · simp only [hget, Except.bind, hput] at h
          obtain ⟨⟨s₃, lines'⟩, hlist, heq⟩ := map_eq_ok.1 h
          obtain ⟨rfl, rfl⟩ := Prod.mk.inj heq
          have hlinks := ((devGet_keeps hget).trans (devPut_keeps hput)).links
          have hshow₁ : ∀ b, displayRdev (s₁.mem b) = displayRdev (s.mem b) :=
            devGet_eq_ok hget ▸ display_set
          have hshow₂ : ∀ b, displayRdev (s₂.mem b) = displayRdev (s₁.mem b) :=
            devPut_eq_ok hput ▸ display_set
          rw [ih hlist (hlinks ▸ hl.2), hshow₁, List.map_cons]
          simp only [hshow₂, hshow₁]

/-! ### Where NULL is followed -/

/-- The device `a` is what the search finds. -/
def FindsDevice (env : RdevEnv) (key : RdevKey) (s : ScanState) (a : ℕ) : Prop :=
  ∃ s', findDevice key s env.fuel .devices = .ok (some (a, s'))

/-- The operation uses the driver of the device `a`: it reads a block of it, enables it
while nobody uses it, or is an interruption by it that no operation in flight is for. -/
def NeedsDriver (env : RdevEnv) (s : ScanState) : RdevOp → ℕ → Prop
  | .bdevReadBlock key _, a => FindsDevice env key s a
  | .cmdEnable auth cmd, a =>
    auth = true ∧ strcasecmp cmd allOperand ≠ 0 ∧
      ∃ devnum, extractHex cmd = .ok devnum ∧ devnum &&& ~~~0xffff = 0 ∧
        FindsDevice env (.ccuu (devnum.setWidth 16)) s a ∧ (s.mem a).inUse = false
  | .interrupt i _, a =>
    FindsDevice env (.sch i.ssid) s a ∧ (s.mem a).completing env i = none ∧ testSch i.testCc = 0
  | _, _ => False

variable {rdc : BitVec 32 → ℕ → UInt8} {env : RdevEnv} {R : ℕ → Prop} {s s' : ScanState}

/-- What an operation that looks a device up does with it. -/
theorem found_spec (h : DriverInv rdc R s) {key : RdevKey} {β : Type}
    {f : Option (ℕ × ScanState) → Except RdevStop β} (hnone : f none ≠ .error .nullDriver)
    {needs : ℕ → Prop}
    (hsome : ∀ a s', s.devGet a = .ok s' → (f (some (a, s')) = .error .nullDriver ↔
      needs a ∧ (s.mem a).dev = none)) :
    (findDevice key s env.fuel .devices).bind f = .error .nullDriver ↔
      ∃ a, (FindsDevice env key s a ∧ needs a) ∧ (s.mem a).dev = none := by
  obtain ⟨hnull, hfound⟩ := findDevice_cases h.closed key env.fuel
    (show onList R .devices from trivial)
  unfold FindsDevice
  rcases hfind : findDevice key s env.fuel .devices with e | _ | ⟨a, s₁⟩
  · rw [hfind] at hnull
    refine iff_of_false (fun heq => hnull (by rw [Except.error.inj heq])) ?_
    rintro ⟨a, ⟨⟨s', hs'⟩, -⟩, -⟩
    exact nomatch hs'
  · refine iff_of_false hnone ?_
    rintro ⟨a, ⟨⟨s', hs'⟩, -⟩, -⟩
    exact nomatch hs'
  · have hget := (hfound a s₁ hfind).2
    refine (hsome a s₁ hget).trans ?_
    constructor
    · rintro ⟨hneeds, hdev⟩
      exact ⟨a, ⟨⟨s₁, rfl⟩, hneeds⟩, hdev⟩
    · rintro ⟨b, ⟨⟨s', hs'⟩, hneeds⟩, hdev⟩
      obtain ⟨rfl, -⟩ := Prod.mk.inj (Option.some.inj (Except.ok.inj hs'))
      exact ⟨hneeds, hdev⟩

/-- A block read follows a `NULL` driver exactly on a device without one. -/
theorem bdevReadBlock_null_iff (d : ScanDev) (lba : Int) :
    d.bdevReadBlock lba = .error .nullDriver ↔ d.dev = none := by
  rw [ScanDev.bdevReadBlock, ScanDev.driver]
  rcases hdev : d.dev with _ | type
  · exact iff_of_true rfl rfl
  · dsimp only
    split
    case h_1 => simp
    case h_2 => simp

/-- No driver under the source has an `enable` function. -/
theorem enable_eq_none (type : DeviceType) : type.enable = none := by
  cases type <;> rfl

/-- No driver under the source has an `interrupt` function. -/
theorem interrupt_eq_none (type : DeviceType) : type.interrupt = none := by
  cases type <;> rfl

/-- `enable` on a device follows a `NULL` driver exactly when the device is not in use and has
none. -/
theorem enableDevice_null_iff (devnum : BitVec 64) (a : ℕ) (s : ScanState) :
    enableDevice devnum a s = .error .nullDriver ↔
      (s.mem a).inUse = false ∧ (s.mem a).dev = none := by
  rw [enableDevice]
  split
  case isTrue huse =>
    refine iff_of_false (fun h => devPut_ne_null s a (map_eq_null.1 h)) ?_
    simp [huse]
  case isFalse huse =>
    have huse' : (s.mem a).inUse = false := by simpa using huse
    rw [ScanDev.driver]
    rcases hdev : (s.mem a).dev with _ | type
    · exact iff_of_true rfl ⟨huse', rfl⟩
    · simp only [enable_eq_none]
      exact iff_of_false (fun h => devPut_ne_null s a (map_eq_null.1 h)) (by simp)

/-- An interruption follows a `NULL` driver exactly when it is unsolicited, the subchannel has a
status, and the device has none. -/
theorem interruptDevice_null_iff (i : IoInt) (next : Option ℕ) (a : ℕ) (s : ScanState) :
    interruptDevice env i next a s = .error .nullDriver ↔
      ((s.mem a).completing env i = none ∧ testSch i.testCc = 0) ∧ (s.mem a).dev = none := by
  rw [interruptDevice]
  split
  case h_1 ioop hioop =>
    refine iff_of_false (fun h => ?_) (by simp [hioop])
    split at h
    case isTrue => exact devPut_ne_null s a h
    case isFalse => exact devPut_ne_null _ a h
  case h_2 hnone =>
    split
    case isTrue htest => exact iff_of_false nofun fun h => htest h.1.2
    case isFalse htest =>
      simp only [ScanState.set_mem_self, ScanDev.driver]
      rcases hdev : (s.mem a).dev with _ | type
      · exact iff_of_true rfl ⟨⟨hnone, not_not.1 htest⟩, rfl⟩
      · simp only [interrupt_eq_none]
        exact iff_of_false (devPut_ne_null _ a) (by simp)

/-- **The command and the device it means**: `enable` follows a `NULL` driver exactly when the
listed device it finds has none and needs one. -/
theorem enableOp_null_iff (h : DriverInv rdc R s) (auth : Bool) (cmd : List UInt8) :
    cmdEnable env.fuel auth cmd s = .error .nullDriver ↔
      ∃ a, NeedsDriver env s (.cmdEnable auth cmd) a ∧ (s.mem a).dev = none := by
  simp only [cmdEnable, NeedsDriver]
  split
  case isTrue hauth => exact iff_of_false nofun fun ⟨_, hneeds, _⟩ => hauth hneeds.1
  case isFalse hauth =>
    split
    case isTrue hall => exact iff_of_false nofun fun ⟨_, hneeds, _⟩ => hneeds.2.1 hall
    case isFalse hall =>
      split
      case h_1 err hcmd =>
        refine iff_of_false nofun ?_
        rintro ⟨_, ⟨-, -, devnum, hdevnum, -⟩, -⟩
        exact nomatch hcmd.symm.trans hdevnum
      case h_2 devnum hcmd =>
        split
        case isTrue hrange =>
          refine iff_of_false nofun ?_
          rintro ⟨_, ⟨-, -, devnum, hdevnum, hmask, -⟩, -⟩
          obtain rfl := Except.ok.inj (hcmd.symm.trans hdevnum)
          exact hrange hmask
        case isFalse hrange =>
          refine Iff.trans (b := ∃ a, (FindsDevice env (.ccuu (devnum.setWidth 16)) s a ∧
            (s.mem a).inUse = false) ∧ (s.mem a).dev = none)
            (found_spec h (fun hnull => ?_) fun a s' hget => ?_)
            (exists_congr fun a => and_congr_left fun _ => ⟨fun hfound => ?_, ?_⟩)
          · exact nomatch hnull
          · rw [enableDevice_null_iff, (devGet_keeps hget).dev, devGet_eq_ok hget, s.set_mem_self]
          · exact ⟨not_not.1 hauth, hall, devnum, hcmd, not_not.1 hrange, hfound⟩
          · rintro ⟨-, -, devnum', hdevnum, -, hfound⟩
            obtain rfl := Except.ok.inj (hcmd.symm.trans hdevnum)
            exact hfound

/-- **One operation** follows NULL where it needs the driver of a device without one. -/
theorem rdevOp_null_iff (h : DriverInv rdc R s) (op : RdevOp) :
    rdevOp env s op = .error .nullDriver ↔ ∃ a, NeedsDriver env s op a ∧ (s.mem a).dev = none := by
  cases op with
  | queue a qCur => exact iff_of_false nofun fun ⟨_, hneeds, _⟩ => hneeds
  | use a inUse => exact iff_of_false nofun fun ⟨_, hneeds, _⟩ => hneeds
  | bdevReadBlock key lba =>
    have hread : rdevOp env s (.bdevReadBlock key lba) = .error .nullDriver ↔
        ∃ a, (FindsDevice env key s a ∧ True) ∧ (s.mem a).dev = none := by
      refine found_spec h (fun hnull => ?_) fun a s' hget => ?_
      · exact nomatch hnull
      · rw [map_eq_null, bdevReadBlock_null_iff, (devGet_keeps hget).dev, true_and]
    simpa only [NeedsDriver, and_true] using hread
  | cmdEnable auth cmd => exact enableOp_null_iff h auth cmd
  | cmdQueryReal auth cmd =>
    refine iff_of_false ?_ fun ⟨_, hneeds, _⟩ => hneeds
    simp only [rdevOp, Hvf.cmdQueryReal]
    intro hnull
    split at hnull
    case isTrue => exact nomatch hnull
    case isFalse =>
      split at hnull
      case isTrue => exact (listRdevs_spec env.fuel .devices s).1 (map_eq_null.1 hnull)
      case isFalse =>
        split at hnull
        case isTrue => exact nomatch hnull
        case isFalse =>
          split at hnull
          case h_1 => exact nomatch hnull
          case h_2 =>
            split at hnull
            case isTrue => exact nomatch hnull
            case isFalse => exact nomatch hnull
  | interrupt i next =>
    refine map_eq_null.trans (found_spec h (fun hnull => ?_) fun a s' hget => ?_)
    · exact nomatch hnull
    · rw [interruptDevice_null_iff, (devGet_keeps hget).dev, devGet_eq_ok hget, s.set_mem_self]
      rfl

/-- `enable` sets the use mark at most, so it keeps the drivers. -/
theorem enableDevice_keeps {devnum : BitVec 64} {a : ℕ} {reply : RdevReply}
    (h : enableDevice devnum a s = .ok (s', reply)) : KeepsDrivers s s' := by
  have hput : ∀ r : RdevReply, (s.devPut a).map (·, r) = .ok (s', reply) →
      KeepsDrivers s s' := by
    intro r hmap
    obtain ⟨s₁, hs₁, heq⟩ := map_eq_ok.1 hmap
    exact (Prod.mk.inj heq).1 ▸ devPut_keeps hs₁
  rw [enableDevice] at h
  split at h
  case isTrue => exact hput _ h
  case isFalse =>
    split at h
    case h_1 => exact nomatch h
    case h_2 type _ =>
      rw [enable_eq_none] at h
      exact hput _ h

/-- An interruption changes queues and counts at most, so it keeps the drivers. -/
theorem interruptDevice_keeps {i : IoInt} {next : Option ℕ} {a : ℕ}
    (h : interruptDevice env i next a s = .ok s') : KeepsDrivers s s' := by
  rw [interruptDevice] at h
  split at h
  case h_1 =>
    split at h
    case isTrue => exact devPut_keeps h
    case isFalse =>
      refine KeepsDrivers.trans (.set s ?_ ?_ ?_ ?_) (devPut_keeps h)
      · rfl
      · rfl
      · rfl
      · rfl
  case h_2 =>
    split at h
    case isTrue => exact nomatch h
    case isFalse =>
      dsimp only at h
      split at h
      case h_1 => exact nomatch h
      case h_2 type _ =>
        rw [interrupt_eq_none] at h
        refine KeepsDrivers.trans (.set s ?_ ?_ ?_ ?_) (devPut_keeps h)
        · rfl
        · rfl
        · rfl
        · rfl

/-- What looks a device up and goes on with it keeps the pointers if that does. -/
theorem find_keeps (h : DriverInv rdc R s) {key : RdevKey} {β : Type} {b : β}
    (state : β → ScanState)
    {f : Option (ℕ × ScanState) → Except RdevStop β}
    (hf : (findDevice key s env.fuel .devices).bind f = .ok b)
    (hnone : f none = .ok b → KeepsDrivers s (state b))
    (hsome : ∀ a s', f (some (a, s')) = .ok b → KeepsDrivers s' (state b)) :
    KeepsDrivers s (state b) := by
  obtain ⟨-, hfound⟩ := findDevice_cases h.closed key env.fuel
    (show onList R .devices from trivial)
  rcases hfind : findDevice key s env.fuel .devices with e | _ | ⟨a, s₁⟩
  · rw [hfind] at hf
    exact nomatch hf
  · rw [hfind] at hf
    exact hnone hf
  · rw [hfind] at hf
    exact (devGet_keeps (hfound a s₁ hfind).2).trans (hsome a s₁ hf)

/-- **Every operation keeps the drivers**, case by case. -/
theorem rdevOp_keeps (h : DriverInv rdc R s) {op : RdevOp} {reply : RdevReply}
    (hop : rdevOp env s op = .ok (s', reply)) : KeepsDrivers s s' := by
  cases op with
  | queue a qCur => exact (Prod.mk.inj (Except.ok.inj hop)).1 ▸ .set s rfl rfl rfl rfl
  | use a inUse => exact (Prod.mk.inj (Except.ok.inj hop)).1 ▸ .set s rfl rfl rfl rfl
  | bdevReadBlock key lba =>
    refine find_keeps h Prod.fst hop (fun hnone => ?_) fun a s₁ hsome => ?_
    · exact (Prod.mk.inj (Except.ok.inj hnone)).1 ▸ .refl s
    · obtain ⟨ret, -, heq⟩ := map_eq_ok.1 hsome
      exact (Prod.mk.inj heq).1 ▸ .refl s₁
  | cmdEnable auth cmd =>
    simp only [rdevOp, Hvf.cmdEnable] at hop
    split at hop
    case isTrue => exact (Prod.mk.inj (Except.ok.inj hop)).1 ▸ .refl s
    case isFalse =>
      split at hop
      case isTrue => exact (Prod.mk.inj (Except.ok.inj hop)).1 ▸ .refl s
      case isFalse =>
        split at hop
        case h_1 => exact (Prod.mk.inj (Except.ok.inj hop)).1 ▸ .refl s
        case h_2 =>
          split at hop
          case isTrue => exact (Prod.mk.inj (Except.ok.inj hop)).1 ▸ .refl s
          case isFalse =>
            refine find_keeps h Prod.fst hop (fun hnone => ?_) fun a s₁ hsome => ?_
            · exact (Prod.mk.inj (Except.ok.inj hnone)).1 ▸ .refl s
            · exact enableDevice_keeps hsome
  | cmdQueryReal auth cmd =>
    simp only [rdevOp, Hvf.cmdQueryReal] at hop
    split at hop
    case isTrue => exact (Prod.mk.inj (Except.ok.inj hop)).1 ▸ .refl s
    case isFalse =>
      split at hop
      case isTrue =>
        obtain ⟨⟨s₁, lines⟩, hlist, heq⟩ := map_eq_ok.1 hop
        exact (Prod.mk.inj heq).1 ▸ (listRdevs_spec env.fuel .devices s).2 s₁ lines hlist
      case isFalse =>
        split at hop
        case isTrue => exact (Prod.mk.inj (Except.ok.inj hop)).1 ▸ .refl s
        case isFalse =>
          split at hop
          case h_1 => exact (Prod.mk.inj (Except.ok.inj hop)).1 ▸ .refl s
          case h_2 =>
            split at hop
            case isTrue => exact (Prod.mk.inj (Except.ok.inj hop)).1 ▸ .refl s
            case isFalse => exact (Prod.mk.inj (Except.ok.inj hop)).1 ▸ .refl s
  | interrupt i next =>
    obtain ⟨s₂, hint, heq⟩ := map_eq_ok.1 hop
    obtain rfl := (Prod.mk.inj heq).1
    refine find_keeps h id hint (fun hnone => ?_) fun a s₁ hsome => interruptDevice_keeps hsome
    exact nomatch hnone

/-- `query real` prints one line for each device of the list, in the list's order. -/
theorem cmdQueryReal_lines {fuel : ℕ} {auth : Bool} {cmd : List UInt8} {lines : List RdevLine}
    {l : List ℕ} (h : cmdQueryReal fuel auth cmd s = .ok (s', .devices lines))
    (hl : Forward s.links .devices (l.map .dev) .devices) :
    lines = l.map fun a => displayRdev (s.mem a) := by
  rw [cmdQueryReal] at h
  split at h
  case isTrue => exact nomatch h
  case isFalse =>
    split at h
    case isTrue =>
      obtain ⟨⟨s₁, lines'⟩, hlist, heq⟩ := map_eq_ok.1 h
      obtain rfl := RdevReply.devices.inj (Prod.mk.inj heq).2
      exact listRdevs_lines hlist hl
    case isFalse =>
      split at h
      case isTrue => exact nomatch h
      case isFalse =>
        split at h
        case h_1 => exact nomatch h
        case h_2 =>
          split at h
          case isTrue => exact nomatch h
          case isFalse => exact nomatch h

/-- An operation needs a driver of listed devices only. -/
theorem DriverInv.needs (h : DriverInv rdc R s) {op : RdevOp} {a : ℕ}
    (hneeds : NeedsDriver env s op a) : R a := by
  have hfound : ∀ {key : RdevKey}, FindsDevice env key s a → R a := fun ⟨s', hs'⟩ =>
    ((findDevice_cases h.closed _ _ (show onList R .devices from trivial)).2 a s' hs').1
  cases op with
  | queue b qCur => exact hneeds.elim
  | use b inUse => exact hneeds.elim
  | bdevReadBlock key lba => exact hfound hneeds
  | cmdEnable auth cmd =>
    obtain ⟨-, -, devnum, -, -, hccuu, -⟩ := hneeds
    exact hfound hccuu
  | cmdQueryReal auth cmd => exact hneeds.elim
  | interrupt i next => exact hfound hneeds.1

/-- The invariant about the drivers holds behind any operations, by induction on them. -/
theorem rdevOps_inv (h : DriverInv rdc R s) {ops : List RdevOp} {t : ScanState}
    (hops : rdevOps env s ops = .ok t) : DriverInv rdc R t := by
  induction ops generalizing s with
  | nil => exact Except.ok.inj hops ▸ h
  | cons op ops ih =>
    rw [rdevOps, List.foldlM_cons] at hops
    rcases hop : rdevOp env s op with e | ⟨s₁, reply⟩
    · rw [hop] at hops
      exact nomatch hops
    · rw [hop] at hops
      exact ih (h.keeps (rdevOp_keeps h hop)) hops

/-- **Exactly when no driver pointer that is NULL is followed:** on the list that any
scan has left, by any sequence of operations, and as long as each device whose driver
an operation uses is of a type that fits and its driver wants the device.  Where
`QUERY REAL` comes to its end, it reports all devices. -/
theorem rdevOps_null_iff {scan : ScanEnv} {types : List DeviceType} {s : ScanState}
    (hscan : scanDevices scan = .ok (types, s)) (env : RdevEnv) (ops : List RdevOp) :
    (rdevOps env s ops ≠ .error .nullDriver ↔
      ∀ ops' op t, ops' ++ [op] <+: ops → rdevOps env s ops' = .ok t →
        ∀ a, NeedsDriver env t op a → (t.mem a).HasDriver scan.rdc) ∧
    ∀ t auth cmd t' lines (l : List ℕ), rdevOps env s ops = .ok t →
      rdevOp env t (.cmdQueryReal auth cmd) = .ok (t', .devices lines) →
      Forward t.links .devices (l.map .dev) .devices →
      lines = l.map fun a => displayRdev (t.mem a) := by
  obtain ⟨R, hinv⟩ := scanDevices_driver hscan
  have hop : ∀ ops' t, rdevOps env s ops' = .ok t → ∀ op a, NeedsDriver env t op a →
      ((t.mem a).dev = none ↔ ¬ (t.mem a).HasDriver scan.rdc) := by
    intro ops' t ht op a hneeds
    rw [← (rdevOps_inv hinv ht).driver a ((rdevOps_inv hinv ht).needs hneeds),
      Option.not_isSome_iff_eq_none]
  refine ⟨?_, fun t auth cmd t' lines l _ hquery hl => ?_⟩
  rotate_left
  · exact cmdQueryReal_lines hquery hl
  rw [Ne, rdevOps, StepRun.foldlM_eq_error]
  constructor
  · intro hno ops' op t hpre ht a hneeds
    by_contra hdriver
    have hdev := (hop ops' t ht op a hneeds).2 hdriver
    exact hno ⟨ops', op, t, hpre, ht,
      map_eq_null.2 ((rdevOp_null_iff (rdevOps_inv hinv ht) op).2 ⟨a, hneeds, hdev⟩)⟩
  · rintro hall ⟨ops', op, t, hpre, ht, hnull⟩
    obtain ⟨a, hneeds, hdev⟩ := (rdevOp_null_iff (rdevOps_inv hinv ht) op).1 (map_eq_null.1 hnull)
    exact (hop ops' t ht op a hneeds).1 hdev (hall ops' op t hpre ht a hneeds)

/-- A scan that finds one subchannel. -/
theorem scanDevices_single {scan : ScanEnv} {s : ScanState}
    (hother : ∀ sch ≠ 0x10000, scan.storeSch sch ≠ 0)
    (hs : scanSch scan scanTypes (scanInit scan) 0x10000 = .ok s) :
    scanDevices scan = .ok (registerDrivers, scanFree s) := by
  have hrest : ∀ schs : List (BitVec 32), 0x10000 ∉ schs →
      schs.foldlM (scanSch scan scanTypes) s = .ok s := by
    intro schs hnot
    induction schs with
    | nil => rfl
    | cons sch schs ih =>
      rw [List.mem_cons, not_or] at hnot
      rw [List.foldlM_cons, scanSch, if_pos (hother sch (Ne.symm hnot.1))]
      exact ih hnot.2
  have hschids : ∃ schs, schids = 0x10000 :: schs := by
    rw [schids, show 0x10000 = 0xffff + 1 from rfl, List.range_succ_eq_map]
    exact ⟨_, rfl⟩
  obtain ⟨schs, hschs⟩ := hschids
  refine scanDevices_eq_ok.2 ⟨rfl, s, ?_, rfl⟩
  rw [hschs, List.foldlM_cons, hs]
  exact hrest schs (List.nodup_cons.1 (hschs ▸ schids_nodup)).1

/-- One device 0020 of some type and model, with a capacity formula, memory full of zeros. -/
def oneDevice (type : BitVec 16) (model : BitVec 8) (formula : UInt8) : ScanEnv :=
  { muteDevice with
    devNum := fun _ => 0x0020
    senseId := fun _ => .ok (type, model)
    rdc := fun _ i => if i = 22 then formula else 0 }

/-- No operation has a handler of its own. -/
def rdevEnv : RdevEnv := ⟨2, fun _ => false, fun n => BitVec.ofNat 32 n⟩

/-- The test environment has a device on the first subchannel only. -/
theorem oneDevice_other (type : BitVec 16) (model : BitVec 8) (formula : UInt8) :
    ∀ sch ≠ 0x10000, (oneDevice type model formula).storeSch sch ≠ 0 := by
  intro sch hne
  have hsch : (oneDevice type model formula).storeSch sch =
      if sch = 0x10000 then 0 else -einval := rfl
  rw [hsch, if_neg hne]
  decide

/-- A block is read of a disk whose model and formula the driver wants: the lookup finds a
driver, and no pointer is `NULL`. -/
theorem rdevOps_null_iff_dasd :
    ∃ s, scanDevices (oneDevice 0x3390 0x0c 2) = .ok (registerDrivers, s) ∧
      rdevOps rdevEnv s [.bdevReadBlock (.sch 0x10000) 3] ≠ .error .nullDriver := by
  have hs : scanSch (oneDevice 0x3390 0x0c 2) scanTypes (scanInit (oneDevice 0x3390 0x0c 2))
      0x10000 = .ok _ := rfl
  have hscan := scanDevices_single (oneDevice_other 0x3390 0x0c 2) hs
  refine ⟨_, hscan, (rdevOps_null_iff hscan rdevEnv _).1.2 fun ops' op t hpre ht a hneeds => ?_⟩
  cases ops' with
  | nil =>
    obtain ⟨rfl, -⟩ := List.cons_prefix_cons.1 hpre
    obtain rfl := Except.ok.inj ht
    obtain ⟨s', hs'⟩ := hneeds
    obtain ⟨rfl, -⟩ := Prod.mk.inj (Option.some.inj (Except.ok.inj hs'))
    exact Or.inr (Or.inl ⟨rfl, by decide, by decide⟩)
  | cons op' ops' => simp at hpre

/-- `ENABLE 20`, where that is a display, which no driver takes: the handler follows
`dev->dev->enable` with a pointer that is `NULL`. -/
theorem enable_follows_null : ¬ ∀ scan types s, scanDevices scan = .ok (types, s) →
    ∀ env ops, rdevOps env s ops ≠ .error .nullDriver := by
  intro h
  have hs : scanSch (oneDevice 0x3278 0x02 0) scanTypes (scanInit (oneDevice 0x3278 0x02 0))
      0x10000 = .ok _ := rfl
  have hscan := scanDevices_single (oneDevice_other 0x3278 0x02 0) hs
  exact h _ _ _ hscan rdevEnv [.cmdEnable true [0x32, 0x30]] rfl

end Hvf
