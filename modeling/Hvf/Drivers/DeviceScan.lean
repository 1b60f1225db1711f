/-
# The scan for devices

`scan_devices` of `cp/drivers/device.c`.  Every subchannel with a device gets a
`struct device`; it is put on the list `devices` as a device of a fake type, because
`submit_io` needs it there, asked what it is, and registered again under its own
type.  A structure whose subchannel fails on the way is used for the next one.

What the channel subsystem and the devices answer and what the memory held that
`malloc` returns are arguments; `malloc` itself does not fail, `start_sch` accepts the
operation, and a device answers it.

A driver may refuse a device of its type: `d3390_reg` wants one of four models and, in the
device characteristics, a capacity formula that it knows; `d9336_reg` one of two models.
The device stays on the list all the same, with no driver.
-/

import Hvf.Drivers.DasdAddress
import Hvf.Lib.Ring

namespace Hvf

open Ring

/-! ### Device types -/

/-- **The types that the drivers register**, and `__fake_dev_type`, which `register_device`
gives a subchannel that has none. -/
inductive DeviceType
  | d3215
  | d3390
  | d9336
  | fakeDevType
deriving DecidableEq

/-- The device type that a driver registers, as the `.type` member of its structure gives it. -/
def DeviceType.type : DeviceType → BitVec 16
  | .d3215 => 0x3215
  | .d3390 => 0x3390
  | .d9336 => 0x9336
  | .fakeDevType => 0

/-- The model a driver registers; all of them leave it 0. -/
def DeviceType.model (_ : DeviceType) : BitVec 8 := 0

/-- Whether a driver takes every model of its type, the `.all_models` member. -/
def DeviceType.allModels : DeviceType → Bool
  | .d3390 | .d9336 => true
  | .d3215 | .fakeDevType => false

/-- `register_device_type`. -/
def registerDeviceType (dev : DeviceType) (deviceTypes : List DeviceType) :
    Int × List DeviceType :=
  if deviceTypes.any fun entry =>
      dev = entry ∨ (dev.type = entry.type ∧ dev.model = entry.model) then
    (-eexist, deviceTypes)
  else (0, deviceTypes ++ [dev])

/-- `unregister_device_type`. -/
def unregisterDeviceType (type : DeviceType) (deviceTypes : List DeviceType) : List DeviceType :=
  deviceTypes.erase type

/-- `device_types` after `register_drivers`. -/
def registerDrivers : List DeviceType :=
  [.d3215, .d3390, .d9336].foldl (fun types dev => (registerDeviceType dev types).2) []

/-! ### Devices -/

/-- What the scan uses of a `struct device`, apart from its list pointers.  `qOut` says
that `q_out` is an empty list; an operation in flight is a number. -/
structure ScanDev where
  sch : BitVec 32
  type : BitVec 16
  model : BitVec 8
  ccuu : BitVec 16
  dev : Option DeviceType
  qLock : BitVec 32
  qCur : Option ℕ
  qOut : Bool
  attention : BitVec 32
  inUse : Bool
  refcnt : BitVec 32

/-- Why the scan does not go on: a `BUG_ON`, a loop in `submit_io` or for its lock that
nothing ends, a pointer that leads nowhere. -/
inductive ScanStop
  | bug
  | wait
  | stray
deriving DecidableEq

/-- `BUG_ON`: the machine stops where the condition holds. -/
def bugOn (c : Bool) : Except ScanStop Unit := if c then .error .bug else .ok ()

/-- Following a pointer. -/
def deref {α : Type*} (p : Option α) : Except ScanStop α := p.elim (.error .stray) .ok

/-- `submit_io` with `CAN_LOOP`: it spins for a `q_lock` that looks taken, and an
operation behind a `q_cur` is never started. -/
def submitIoLoop (d : ScanDev) : Except ScanStop Unit :=
  if d.qLock ≠ 0 ∨ d.qCur ≠ none then .error .wait else .ok ()

/-- `d3390_reg`, where READ DEVICE CHARACTERISTICS leaves `buf`.  What it stores in
`dev->eckd`, and `-EINVAL` for a formula other than 1 and 2, are those of `d3390Geometry`. -/
def d3390Reg (buf : ℕ → UInt8) (dev : ScanDev) : Except ScanStop Int := do
  if dev.model ∉ [0x02, 0x06, 0x0a, 0x0c] then return -enoent
  submitIoLoop dev
  match d3390Geometry (.ofBitVec dev.model) 0 buf with
  | .ok _ => return 0
  | .error err => return err

/-- `d9336_reg`.  It takes the characteristics as they are, and what it stores in
`dev->fba` is left out. -/
def d9336Reg (_ : ℕ → UInt8) (dev : ScanDev) : Except ScanStop Int := do
  if dev.model ∉ [0x00, 0x10] then return -enoent
  submitIoLoop dev
  return 0

/-- `type->reg`; the console and the fake type have none. -/
def DeviceType.reg : DeviceType → Option ((ℕ → UInt8) → ScanDev → Except ScanStop Int)
  | .d3390 => some d3390Reg
  | .d9336 => some d9336Reg
  | .d3215 | .fakeDevType => none

/-- **The nodes of the list `devices`**: its head, and the allocations of `struct device`,
numbered in their order. -/
inductive DevNode
  | devices
  | dev (a : ℕ)
deriving DecidableEq

/-- `mem` are the structures, by the number of their allocation; `live` those that are
allocated; `count` is the number of allocations, `dev` the variable of `scan_devices`. -/
structure ScanState where
  mem : ℕ → ScanDev
  live : ℕ → Bool
  links : Links DevNode
  dev : Option ℕ
  count : ℕ

/-- The state with a device structure stored at an address. -/
def ScanState.set (s : ScanState) (a : ℕ) (d : ScanDev) : ScanState :=
  { s with mem := Function.update s.mem a d }

/-- The state with the links of the device list replaced. -/
def ScanState.relink (s : ScanState) (links : Links DevNode) : ScanState :=
  { s with links := links }

/-- A structure stored is the one read back. -/
@[simp] theorem ScanState.set_mem_self (s : ScanState) (a : ℕ) (d : ScanDev) :
    (s.set a d).mem a = d := Function.update_self ..

/-- A store leaves every other structure alone. -/
theorem ScanState.set_mem_of_ne (s : ScanState) {a b : ℕ} (d : ScanDev) (hne : b ≠ a) :
    (s.set a d).mem b = s.mem b := Function.update_of_ne hne ..

/-- A store of a structure does not touch the list. -/
@[simp] theorem ScanState.set_links (s : ScanState) (a : ℕ) (d : ScanDev) :
    (s.set a d).links = s.links := rfl

/-- Of two stores at one address the later stands. -/
@[simp] theorem ScanState.set_set (s : ScanState) (a : ℕ) (d d' : ScanDev) :
    (s.set a d).set a d' = s.set a d' := by
  simp only [ScanState.set, Function.update_idem]

/-- A change of the links touches no structure. -/
@[simp] theorem ScanState.relink_mem (s : ScanState) (k : Links DevNode) :
    (s.relink k).mem = s.mem := rfl

/-- The links stored are the ones read back. -/
@[simp] theorem ScanState.relink_links (s : ScanState) (k : Links DevNode) :
    (s.relink k).links = k := rfl

/-- Links and structures are stored independently of each other. -/
@[simp] theorem ScanState.relink_set (s : ScanState) (a : ℕ) (d : ScanDev)
    (k : Links DevNode) : (s.relink k).set a d = (s.set a d).relink k := rfl

/-- Of two changes of the links the later stands. -/
@[simp] theorem ScanState.relink_relink (s : ScanState) (k k' : Links DevNode) :
    (s.relink k).relink k' = s.relink k' := rfl

/-- The first type that fits the device. -/
def findDeviceType (types : List DeviceType) (d : ScanDev) : Option DeviceType :=
  types.find? fun type => type.type = d.type ∧ (type.allModels ∨ type.model = d.model)

/-- `type->reg(dev)` of the type found; `buf` are the characteristics of the device. -/
def callReg (type : Option DeviceType) (buf : ℕ → UInt8) (dev : ScanDev) :
    Except ScanStop Int :=
  match type with
  | none => .ok (-enoent)
  | some type => match type.reg with
    | none => .ok 0
    | some reg => reg buf dev

/-- `__register_device`; `rdc` are the characteristics of the devices, by subchannel id. -/
def _registerDevice (rdc : BitVec 32 → ℕ → UInt8) (types : List DeviceType) (a : ℕ)
    (remove : Bool) (s : ScanState) : Except ScanStop (Int × ScanState) := do
  let type := findDeviceType types (s.mem a)
  let dev := { s.mem a with refcnt := 1, inUse := false, dev := type }
  let err ← callReg type (rdc dev.sch) dev
  let dev := if err ≠ 0 then { dev with dev := none } else dev
  let links ← deref (if remove then s.links.del (.dev a) else some s.links)
  let links ← deref (links.addTail (.dev a) .devices)
  return (err, (s.set a dev).relink links)

/-! ### The scan -/

/-- What the subchannels and their devices answer, by subchannel id, and what the
allocations hold: `senseId` is the `err` of the operation or the type and model that the
device gives, `rdc` what READ DEVICE CHARACTERISTICS leaves in the buffer (after an error,
which no driver looks at, whatever was there), `pointers` the list pointers in the memory. -/
structure ScanEnv where
  storeSch : BitVec 32 → Int
  valid : BitVec 32 → Bool
  devNum : BitVec 32 → BitVec 16
  modifySch : BitVec 32 → Int
  senseId : BitVec 32 → Except Int (BitVec 16 × BitVec 8)
  rdc : BitVec 32 → ℕ → UInt8
  garbage : ℕ → ScanDev
  pointers : Links DevNode

/-- `static_device_list`: device number, type, model. -/
def staticDeviceList : List (BitVec 16 × BitVec 16 × BitVec 8) := [(0x0009, 0x3215, 0)]

/-- `do_sense_id` of the device `dev`: `ioop.err`, or what is in `buf`. -/
def doSenseId (env : ScanEnv) (dev : ScanDev) (devNum : BitVec 16) :
    Except ScanStop (Except Int (BitVec 16 × BitVec 8)) :=
  match staticDeviceList.find? fun sdev => sdev.1 = devNum with
  | some sdev => return .ok sdev.2
  | none => do
    submitIoLoop dev
    return env.senseId dev.sch

/-- `if (!dev)` of `scan_devices`: the structure to use, allocated if there is none. -/
def scanAlloc (env : ScanEnv) (s : ScanState) : ℕ × ScanState :=
  match s.dev with
  | some a => (a, s)
  | none =>
    let d := { env.garbage s.count with
      attention := 0, qOut := true, dev := some .fakeDevType }
    (s.count,
      { s with
        mem := Function.update s.mem s.count d
        live := Function.update s.live s.count true
        dev := some s.count
        count := s.count + 1 })

/-- The loop body of `scan_devices`.  The second `modify_sch` may fail and changes
nothing in memory. -/
def scanSch (env : ScanEnv) (types : List DeviceType) (s : ScanState) (sch : BitVec 32) :
    Except ScanStop ScanState := do
  if env.storeSch sch ≠ 0 then return s
  if ¬ env.valid sch then return s
  let (a, s) := scanAlloc env s
  if env.modifySch sch ≠ 0 then return s
  let s := s.set a { s.mem a with sch := sch }
  let (err, s) ← _registerDevice env.rdc types a false s
  bugOn (err ≠ 0)
  bugOn ((s.mem a).dev ≠ some .fakeDevType)
  match ← doSenseId env (s.mem a) (env.devNum sch) with
  | .error _ => return s
  | .ok (type, model) =>
    let s := s.set a { s.mem a with type := type, model := model, ccuu := env.devNum sch }
    let (_, s) ← _registerDevice env.rdc types a true s
    return { s with dev := none }

/-- The subchannel ids. -/
def schids : List (BitVec 32) := (List.range 0x10000).map fun i => 0x10000 + BitVec.ofNat 32 i

/-- Before the scan: `devices` is empty. -/
def scanInit (env : ScanEnv) : ScanState where
  mem := env.garbage
  live _ := false
  links := (env.pointers.put (.next .devices (some .devices))).put (.prev .devices (some .devices))
  dev := none
  count := 0

/-- `free(dev)`. -/
def scanFree (s : ScanState) : ScanState :=
  match s.dev with
  | some a => { s with live := Function.update s.live a false }
  | none => s

/-- `scan_devices`: `device_types` and what it leaves in memory. -/
def scanDevices (env : ScanEnv) : Except ScanStop (List DeviceType × ScanState) := do
  let (err, types) := registerDeviceType .fakeDevType registerDrivers
  bugOn (err ≠ 0)
  let s ← schids.foldlM (scanSch env types) (scanInit env)
  return (unregisterDeviceType .fakeDevType types, scanFree s)

/-! ### What a subchannel does to the list -/

/-- `device_types` during the scan. -/
def scanTypes : List DeviceType := [.d3215, .d3390, .d9336, .fakeDevType]

/-- The driver of no device is found for type 0 and model 0 only. -/
theorem findDeviceType_fake {d : ScanDev} :
    findDeviceType scanTypes d = some .fakeDevType ↔ d.type = 0 ∧ d.model = 0 := by
  constructor
  · intro h
    have hfits := List.find?_some h
    simp only [DeviceType.type, DeviceType.model, DeviceType.allModels, decide_eq_true_eq,
      Bool.false_eq_true, false_or] at hfits
    exact ⟨hfits.1.symm, hfits.2.symm⟩
  · rintro ⟨htype, hmodel⟩
    simp [findDeviceType, scanTypes, htype, hmodel, DeviceType.type, DeviceType.model,
      DeviceType.allModels]

/-- A sequence of two steps returns exactly when the first returns and the second does on its
result. -/
theorem bind_eq_ok {α β : Type} {x : Except ScanStop α} {f : α → Except ScanStop β} {b : β} :
    x >>= f = .ok b ↔ ∃ a, x = .ok a ∧ f a = .ok b := by
  cases x with
  | error e => exact ⟨fun h => (nomatch h), fun ⟨_, h, _⟩ => (nomatch h)⟩
  | ok a =>
    refine ⟨fun h => ⟨a, rfl, h⟩, ?_⟩
    rintro ⟨a', ha, hf⟩
    obtain rfl := Except.ok.inj ha
    exact hf

/-- Following a pointer succeeds exactly when it is not `NULL`. -/
theorem deref_eq_ok {α : Type*} {p : Option α} {a : α} : deref p = .ok a ↔ p = some a := by
  cases p with
  | none => exact ⟨fun h => (nomatch h), fun h => (nomatch h)⟩
  | some b => simp only [deref, Option.elim_some, Except.ok.injEq, Option.some.injEq]

/-- The device as `__register_device` leaves it. -/
def ScanDev.registered (d : ScanDev) (type : Option DeviceType) (err : Int) : ScanDev :=
  { d with refcnt := 1, inUse := false, dev := if err ≠ 0 then none else type }

/-- What `__register_device` does if it comes to its end. -/
theorem registerDevice_eq_ok {rdc : BitVec 32 → ℕ → UInt8} {types : List DeviceType} {a : ℕ}
    {remove : Bool} {s s' : ScanState} {err : Int} :
    _registerDevice rdc types a remove s = .ok (err, s') ↔
      callReg (findDeviceType types (s.mem a)) (rdc (s.mem a).sch)
          ((s.mem a).registered (findDeviceType types (s.mem a)) 0) = .ok err ∧
        ∃ k k', (if remove then s.links.del (.dev a) else some s.links) = some k ∧
          k.addTail (.dev a) .devices = some k' ∧
          s' = (s.set a ((s.mem a).registered (findDeviceType types (s.mem a)) err)).relink k' := by
  have hdev : ∀ err : Int, (if err ≠ 0 then
        { s.mem a with refcnt := 1, inUse := false, dev := none }
      else { s.mem a with
        refcnt := 1, inUse := false, dev := findDeviceType types (s.mem a) }) =
      (s.mem a).registered (findDeviceType types (s.mem a)) err := by
    intro err
    rw [ScanDev.registered]
    split
    · rfl
    · rfl
  simp only [_registerDevice, bind_eq_ok, deref_eq_ok, hdev]
  constructor
  · rintro ⟨err', hreg, k, hk, k', hk', h⟩
    obtain ⟨rfl, rfl⟩ := Prod.mk.inj (Except.ok.inj h)
    exact ⟨hreg, k, k', hk, hk', rfl⟩
  · rintro ⟨hreg, k, k', hk, hk', rfl⟩
    exact ⟨err, hreg, k, hk, k', hk', rfl⟩

/-- The queue is as `submit_io` needs it. -/
def ScanDev.QueueSet (d : ScanDev) : Prop := d.qLock = 0 ∧ d.qCur = none

/-- `submit_io` gets through exactly when the device's queues are set up. -/
theorem submitIoLoop_eq_ok {d : ScanDev} : submitIoLoop d = .ok () ↔ d.QueueSet := by
  rw [submitIoLoop, ScanDev.QueueSet]
  split
  case isTrue h =>
    refine ⟨fun h => (nomatch h), fun hset => ?_⟩
    exact absurd hset (by tauto)
  case isFalse h => exact ⟨fun _ => by tauto, fun _ => rfl⟩

/-- A driver's registration returns, with some code, once the queues are set up. -/
theorem callReg_isOk {d : ScanDev} (hset : d.QueueSet) (type : Option DeviceType)
    (buf : ℕ → UInt8) : ∃ err, callReg type buf d = .ok err := by
  have hio := submitIoLoop_eq_ok.2 hset
  cases type with
  | none => exact ⟨_, rfl⟩
  | some type =>
    cases type with
    | d3215 => exact ⟨_, rfl⟩
    | fakeDevType => exact ⟨_, rfl⟩
    | d3390 =>
      simp only [callReg, DeviceType.reg, d3390Reg, hio]
      split
      · exact ⟨_, rfl⟩
      · cases d3390Geometry (.ofBitVec d.model) 0 buf with
        | ok eckd => exact ⟨_, rfl⟩
        | error err => exact ⟨_, rfl⟩
    | d9336 =>
      simp only [callReg, DeviceType.reg, d9336Reg, hio]
      split
      · exact ⟨_, rfl⟩
      · exact ⟨_, rfl⟩

/-- **`_register_device` returns** on a device whose queues are set up, if the list can take the
node out and put it at the end. -/
theorem registerDevice_isOk (rdc : BitVec 32 → ℕ → UInt8) (types : List DeviceType) {a : ℕ}
    {s : ScanState}
    {k k' : Links DevNode} (hset : (s.mem a).QueueSet) (hdel : s.links.del (.dev a) = some k)
    (hadd : k.addTail (.dev a) .devices = some k') :
    ∃ err s', _registerDevice rdc types a true s = .ok (err, s') := by
  obtain ⟨err, hcall⟩ := callReg_isOk
    (show ((s.mem a).registered (findDeviceType types (s.mem a)) 0).QueueSet from hset)
    (findDeviceType types (s.mem a)) (rdc (s.mem a).sch)
  exact ⟨err, _, registerDevice_eq_ok.2 ⟨hcall, k, k', hdel, hadd, rfl⟩⟩

/-- The subchannel has a device and is enabled. -/
def ScanEnv.Attached (env : ScanEnv) (sch : BitVec 32) : Prop :=
  env.storeSch sch = 0 ∧ env.valid sch = true ∧ env.modifySch sch = 0

/-- Whether a subchannel has a device is decided by three comparisons. -/
instance (env : ScanEnv) : DecidablePred env.Attached := fun _ =>
  inferInstanceAs (Decidable (_ ∧ _ ∧ _))

/-- What the device of a subchannel turns out to be. -/
def ScanEnv.identify (env : ScanEnv) (sch : BitVec 32) : Except Int (BitVec 16 × BitVec 8) :=
  match staticDeviceList.find? fun sdev => sdev.1 = env.devNum sch with
  | some sdev => .ok sdev.2
  | none => env.senseId sch

/-- **A device that was identified**: number, type and model are those the subchannel's
device answers with, or those of the static list. -/
structure ScanDev.Identified (env : ScanEnv) (sch : BitVec 32) (d : ScanDev) : Prop where
  sch_eq : d.sch = sch
  identify_eq : env.identify sch = .ok (d.type, d.model)
  ccuu_eq : d.ccuu = env.devNum sch

/-- What `do_sense_id` returns is what the device identifies as; it needs the queues unless the
number is 9. -/
theorem doSenseId_eq_ok (env : ScanEnv) {d : ScanDev}
    {res : Except Int (BitVec 16 × BitVec 8)} :
    doSenseId env d (env.devNum d.sch) = .ok res ↔
      env.identify d.sch = res ∧ (env.devNum d.sch = 0x0009 ∨ d.QueueSet) := by
  by_cases hstatic : env.devNum d.sch = 0x0009
  · have hfind : (staticDeviceList.find? fun sdev => sdev.1 = env.devNum d.sch) =
        some (0x0009, 0x3215, 0) := by
      rw [hstatic]
      rfl
    rw [doSenseId, ScanEnv.identify, hfind]
    constructor
    · intro h
      exact ⟨Except.ok.inj h, Or.inl hstatic⟩
    · rintro ⟨rfl, -⟩
      rfl
  · have hfind : (staticDeviceList.find? fun sdev => sdev.1 = env.devNum d.sch) = none := by
      simpa [staticDeviceList] using Ne.symm hstatic
    simp only [doSenseId, ScanEnv.identify, hfind, bind_eq_ok, hstatic, false_or]
    constructor
    · rintro ⟨⟨⟩, hio, hres⟩
      exact ⟨Except.ok.inj hres, submitIoLoop_eq_ok.1 hio⟩
    · rintro ⟨rfl, hset⟩
      exact ⟨(), submitIoLoop_eq_ok.2 hset, rfl⟩

/-- `BUG_ON` lets through exactly what does not hold. -/
theorem bugOn_eq_ok {c : Bool} : bugOn c = .ok () ↔ c = false := by
  cases c with
  | false => exact ⟨fun _ => rfl, fun _ => rfl⟩
  | true => exact ⟨fun h => (nomatch h), fun h => (nomatch h)⟩

/-- The registration as a device of the fake type, with the two `BUG_ON`s behind it. -/
theorem registerDevice_fake {rdc : BitVec 32 → ℕ → UInt8} {a : ℕ} {s s' : ScanState} {err : Int} :
    (_registerDevice rdc scanTypes a false s = .ok (err, s') ∧ err = 0 ∧
        (s'.mem a).dev = some .fakeDevType) ↔
      ((s.mem a).type = 0 ∧ (s.mem a).model = 0) ∧ err = 0 ∧
        ∃ k, s.links.addTail (.dev a) .devices = some k ∧
          s' = (s.set a ((s.mem a).registered (some .fakeDevType) 0)).relink k := by
  rw [registerDevice_eq_ok]
  constructor
  · rintro ⟨⟨_, k, k', hk, hk', rfl⟩, rfl, hdev⟩
    have htype : findDeviceType scanTypes (s.mem a) = some .fakeDevType := by
      simpa [ScanDev.registered] using hdev
    obtain rfl := Option.some.inj hk
    refine ⟨findDeviceType_fake.1 htype, rfl, k', hk', ?_⟩
    rw [htype]
  · rintro ⟨hfake, rfl, k, hk, rfl⟩
    have htype := findDeviceType_fake.2 hfake
    rw [htype]
    refine ⟨⟨rfl, s.links, k, rfl, hk, rfl⟩, rfl, ?_⟩
    simp [ScanDev.registered]

/-- **One subchannel.** -/
theorem scanSch_cases {env : ScanEnv} {s s' : ScanState} {sch : BitVec 32}
    (h : scanSch env scanTypes s sch = .ok s') :
    (¬ env.Attached sch ∧ (s' = s ∨ s' = (scanAlloc env s).2)) ∨
      (env.Attached sch ∧ ∃ a s₁ k d, scanAlloc env s = (a, s₁) ∧
        (s₁.mem a).type = 0 ∧ (s₁.mem a).model = 0 ∧
        s₁.links.addTail (.dev a) .devices = some k ∧
        ((∃ e, env.identify sch = .error e ∧ s' = (s₁.set a d).relink k) ∨
          ∃ k₁ k₂, k.del (.dev a) = some k₁ ∧ k₁.addTail (.dev a) .devices = some k₂ ∧
            d.Identified env sch ∧ (d.QueueSet ↔ (s₁.mem a).QueueSet) ∧
            d.qOut = (s₁.mem a).qOut ∧
            s' = { (s₁.set a d).relink k₂ with dev := none })) := by
  simp only [scanSch] at h
  split at h
  case isTrue hstore =>
    obtain rfl := Except.ok.inj h
    exact Or.inl ⟨fun hatt => hstore hatt.1, Or.inl rfl⟩
  case isFalse hstore =>
    split at h
    case isTrue hvalid =>
      obtain rfl := Except.ok.inj h
      exact Or.inl ⟨fun hatt => hvalid hatt.2.1, Or.inl rfl⟩
    case isFalse hvalid =>
      split at h
      case isTrue hmodify =>
        obtain rfl := Except.ok.inj h
        exact Or.inl ⟨fun hatt => hmodify hatt.2.2, Or.inr rfl⟩
      case isFalse hmodify =>
        refine Or.inr ⟨⟨not_not.1 hstore, not_not.1 hvalid, not_not.1 hmodify⟩, ?_⟩
        rcases halloc : scanAlloc env s with ⟨a, s₁⟩
        simp only [bind_eq_ok, halloc] at h
        obtain ⟨⟨err, s₂⟩, hreg, ⟨⟩, hbug, ⟨⟩, hbug', res, hsense, h⟩ := h
        obtain ⟨hfake, -, k, hk, rfl⟩ := registerDevice_fake.1
          ⟨hreg, by simpa using bugOn_eq_ok.1 hbug, by simpa using bugOn_eq_ok.1 hbug'⟩
        set d := ({ s₁.mem a with sch := sch } : ScanDev)
        simp only [ScanState.set_mem_self, ScanState.set_links, ScanState.set_set,
          ScanState.relink_mem] at hfake hk hsense h
        obtain ⟨hres, -⟩ := (doSenseId_eq_ok env).1 hsense
        cases res with
        | error e =>
          exact ⟨a, s₁, k, d.registered (some .fakeDevType) 0, rfl, hfake.1, hfake.2, hk,
            Or.inl ⟨e, hres, (Except.ok.inj h).symm⟩⟩
        | ok res =>
          obtain ⟨type, model⟩ := res
          simp only [ScanState.relink_set, ScanState.set_set, bind_eq_ok] at h
          set d' : ScanDev := { d.registered (some .fakeDevType) 0 with
            type := type, model := model, ccuu := env.devNum sch }
          obtain ⟨⟨err, s₃⟩, hreg, h⟩ := h
          obtain ⟨-, k₁, k₂, hk₁, hk₂, rfl⟩ := registerDevice_eq_ok.1 hreg
          simp only [ScanState.relink_set, ScanState.set_set, ScanState.relink_mem,
            ScanState.set_mem_self, ScanState.relink_relink] at h
          exact ⟨a, s₁, k, d'.registered (findDeviceType scanTypes d') err, rfl, hfake.1,
            hfake.2, hk, Or.inr ⟨k₁, k₂, hk₁, hk₂, ⟨rfl, hres, rfl⟩, Iff.rfl, rfl,
            (Except.ok.inj h).symm⟩⟩

/-- A subchannel whose structure is clean and that can be asked gets through. -/
theorem scanSch_isOk {env : ScanEnv} {s s₁ : ScanState} {sch : BitVec 32} {a : ℕ}
    (halloc : scanAlloc env s = (a, s₁))
    (hclean : env.Attached sch → (s₁.mem a).type = 0 ∧ (s₁.mem a).model = 0 ∧
      (s₁.mem a).QueueSet ∧ ∃ k k₁ k₂, s₁.links.addTail (.dev a) .devices = some k ∧
        k.del (.dev a) = some k₁ ∧ k₁.addTail (.dev a) .devices = some k₂) :
    ∃ s', scanSch env scanTypes s sch = .ok s' := by
  simp only [scanSch]
  split
  case isTrue => exact ⟨_, rfl⟩
  case isFalse hstore =>
    split
    case isTrue => exact ⟨_, rfl⟩
    case isFalse hvalid =>
      rw [halloc]
      split
      case isTrue => exact ⟨_, rfl⟩
      case isFalse hmodify =>
        obtain ⟨htype, hmodel, hset, k, k₁, k₂, hk, hk₁, hk₂⟩ :=
          hclean ⟨not_not.1 hstore, not_not.1 hvalid, not_not.1 hmodify⟩
        set d := ({ s₁.mem a with sch := sch } : ScanDev)
        have hmem : (s₁.set a d).mem a = d := s₁.set_mem_self a d
        have hfake : ((s₁.set a d).mem a).type = 0 ∧ ((s₁.set a d).mem a).model = 0 := by
          rw [hmem]
          exact ⟨htype, hmodel⟩
        obtain ⟨hreg, -, hdev⟩ := registerDevice_fake.2 ⟨hfake, rfl, k, hk, rfl⟩
        have hbug := bugOn_eq_ok.2 (decide_eq_false (not_not_intro hdev))
        rw [hmem, ScanState.set_set] at hreg hbug
        have hsense : doSenseId env (d.registered (some .fakeDevType) 0) (env.devNum sch) =
            .ok (env.identify sch) :=
          (doSenseId_eq_ok env).2 ⟨rfl, Or.inr hset⟩
        set s₂ := (s₁.set a (d.registered (some .fakeDevType) 0)).relink k
        have hmem' : s₂.mem a = d.registered (some .fakeDevType) 0 := s₁.set_mem_self a _
        rw [← hmem'] at hsense
        simp only [bind_eq_ok]
        rcases hidentify : env.identify sch with e | ⟨type, model⟩
        · rw [hidentify] at hsense
          exact ⟨_, (0, s₂), hreg, (), rfl, (), hbug, .error e, hsense, rfl⟩
        · rw [hidentify] at hsense
          have hset' : ((s₂.set a { s₂.mem a with
              type := type, model := model, ccuu := env.devNum sch }).mem a).QueueSet := by
            rw [ScanState.set_mem_self, hmem']
            exact hset
          obtain ⟨err, s₃, hreg'⟩ := registerDevice_isOk env.rdc scanTypes hset' hk₁ hk₂
          refine ⟨{ s₃ with dev := none }, (0, s₂), hreg, (), rfl, (), hbug,
            .ok (type, model), hsense, ?_⟩
          exact bind_eq_ok.2 ⟨(err, s₃), hreg', rfl⟩

end Hvf
