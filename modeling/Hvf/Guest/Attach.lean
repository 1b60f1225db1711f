/-
# Attaching devices to a guest

`alloc_guest_devices` of `cp/guest/init.c` and `guest_attach` of
`cp/guest/attach.c`.  At logon the devices of the directory entry get subchannel
numbers by their position, with a gap where one fails; an attach searches the
list for the first number that is free, for the subchannel and, if it is asked to
pick one, for the device.  Both run under `virt_devs_lock`.

`AllocEnv` is what an allocation meets: whether `malloc` succeeds and the real
devices, which other guests take and give back in between.
-/

import Hvf.Drivers.Vdevice
import Hvf.Lib.Search
import Hvf.Lib.StepRun

namespace Hvf

open Search StepRun

/-- What an attach meets outside the guest: whether the allocation succeeds, and the real
devices. -/
structure AllocEnv where
  malloc : Bool
  rdevs : List RealDevice

/-- The loop of `alloc_guest_devices` from position `i` on. -/
def allocGuestDevices (env : ℕ → AllocEnv) : ℕ → List DirVdev → List GuestDev → List GuestDev
  | _, [], virtDevs => virtDevs
  | i, cur :: devices, virtDevs =>
    allocGuestDevices env (i + 1) devices
      (allocVirtDev (env i).malloc (env i).rdevs cur (0x10000 + BitVec.ofNat 32 i) virtDevs).2.2

/-- The search of `guest_attach` for a device number. -/
def pickVdev (virtDevs : List GuestDev) : Option ℕ :=
  firstFrom (fun vdev => !virtDevs.any fun cur => cur.devNum.toNat = vdev) 0 0x10000

/-- The search of `guest_attach` for a subchannel number. -/
def pickSch (virtDevs : List GuestDev) : Option ℕ :=
  firstFrom (fun sch => !virtDevs.any fun cur => cur.sch.toNat = sch) 0x10000 0x10000

/-- **A call of `guest_attach`**: the real device that is asked for, and the virtual number,
or -1 for any. -/
structure AttachCall where
  env : AllocEnv
  rdev : BitVec 64
  vdev : BitVec 64

/-- `dv`, with the device number `vdev`. -/
def AttachCall.dirVdev (c : AttachCall) (vdev : BitVec 16) : DirVdev :=
  { type := .ded, vdev, rdev := c.rdev.setWidth 16, spType := 0, spModel := 0 }

/-- The device number that `guest_attach` goes on with, if any. -/
def AttachCall.number (c : AttachCall) (virtDevs : List GuestDev) : Option (BitVec 16) :=
  if c.vdev = -1 then (pickVdev virtDevs).map (BitVec.ofNat 16) else some (c.vdev.setWidth 16)

/-- `guest_attach`: the value it returns, the real devices and the list. -/
def guestAttach (c : AttachCall) (virtDevs : List GuestDev) :
    Int × List RealDevice × List GuestDev :=
  match c.number virtDevs with
  | none => (-ebusy, c.env.rdevs, virtDevs)
  | some vdev =>
    match pickSch virtDevs with
    | none => (-ebusy, c.env.rdevs, virtDevs)
    | some sch =>
      allocVirtDev c.env.malloc c.env.rdevs (c.dirVdev vdev) (BitVec.ofNat 32 sch) virtDevs

/-! ### The numbers of a guest's devices -/

/-- **The subchannel numbers are distinct and in range**, from 0x10000 to 0x1FFFF. -/
structure Numbered (virtDevs : List GuestDev) : Prop where
  distinct : (virtDevs.map GuestDev.sch).Nodup
  range : ∀ cur ∈ virtDevs, 0x10000 ≤ cur.sch.toNat ∧ cur.sch.toNat ≤ 0x1ffff

/-- One more device keeps the numbering, if its subchannel is new and in the range. -/
theorem Numbered.snoc {virtDevs : List GuestDev} (h : Numbered virtDevs) {vdev : GuestDev}
    (hnew : vdev.sch ∉ virtDevs.map GuestDev.sch)
    (hrange : 0x10000 ≤ vdev.sch.toNat ∧ vdev.sch.toNat ≤ 0x1ffff) :
    Numbered (virtDevs ++ [vdev]) := by
  constructor
  · rw [List.map_append, List.map_singleton, ← List.concat_eq_append]
    exact h.distinct.concat hnew
  · intro cur hcur
    rcases List.mem_append.1 hcur with hcur | hcur
    · exact h.range cur hcur
    · obtain rfl := List.mem_singleton.1 hcur
      exact hrange

/-- The numbers that logon gives, by induction on the devices that are left: those
before position `i` are below it. -/
theorem allocGuestDevices_numbered (env : ℕ → AllocEnv) (devices : List DirVdev) {i : ℕ}
    {virtDevs : List GuestDev} (hcount : i + devices.length ≤ 0x10000) (h : Numbered virtDevs)
    (hbelow : ∀ cur ∈ virtDevs, cur.sch.toNat < 0x10000 + i) :
    Numbered (allocGuestDevices env i devices virtDevs) := by
  induction devices generalizing i virtDevs with
  | nil => exact h
  | cons cur devices ih =>
    rw [List.length_cons] at hcount
    rw [allocGuestDevices]
    have hsch : (0x10000 + BitVec.ofNat 32 i : BitVec 32).toNat = 0x10000 + i := by
      have hbase : (0x10000 : BitVec 32).toNat = 0x10000 := rfl
      rw [BitVec.toNat_add, BitVec.toNat_ofNat, hbase]
      omega
    rcases allocVirtDev_cases (env i).malloc (env i).rdevs cur (0x10000 + BitVec.ofNat 32 i)
      virtDevs with ⟨-, hsame⟩ | ⟨-, vdev, hadd, hnum, -⟩
    · rw [hsame]
      exact ih (by omega) h fun cur hcur => by have := hbelow cur hcur; omega
    · rw [hadd]
      refine ih (by omega) (h.snoc ?_ ?_) fun cur hcur => ?_
      · intro hmem
        obtain ⟨old, hold, heq⟩ := List.mem_map.1 hmem
        have := hbelow old hold
        rw [heq, hnum, hsch] at this
        omega
      · rw [hnum, hsch]
        omega
      · rcases List.mem_append.1 hcur with hcur | hcur
        · have := hbelow cur hcur
          omega
        · obtain rfl := List.mem_singleton.1 hcur
          rw [hnum, hsch]
          omega

/-! ### The searches -/

/-- No device of the list has the number. -/
def FreeVdev (virtDevs : List GuestDev) (vdev : BitVec 16) : Prop :=
  ∀ cur ∈ virtDevs, cur.devNum ≠ vdev

/-- No device of the list has the subchannel number, and it is in range. -/
def FreeSch (virtDevs : List GuestDev) (sch : BitVec 32) : Prop :=
  (∀ cur ∈ virtDevs, cur.sch ≠ sch) ∧ 0x10000 ≤ sch.toNat ∧ sch.toNat ≤ 0x1ffff

variable {virtDevs : List GuestDev}

/-- The search that must find no device, as a statement about all of them. -/
theorem not_any_iff {f : GuestDev → ℕ} {n : ℕ} :
    (!virtDevs.any fun cur => f cur = n) = true ↔ ∀ cur ∈ virtDevs, f cur ≠ n := by
  simp

/-- A number that the search picks is in range and no device has it. -/
theorem pickVdev_some {n : ℕ} (h : pickVdev virtDevs = some n) :
    FreeVdev virtDevs (BitVec.ofNat 16 n) := by
  obtain ⟨-, hlt, hfree, -⟩ := firstFrom_eq_some h
  intro cur hcur heq
  refine not_any_iff.1 hfree cur hcur ?_
  rw [heq, BitVec.toNat_ofNat, Nat.mod_eq_of_lt (by omega)]

/-- If any number is free, the search picks one. -/
theorem pickVdev_free {vdev : BitVec 16} (h : FreeVdev virtDevs vdev) :
    ∃ n, pickVdev virtDevs = some n :=
  exists_firstFrom (Nat.zero_le vdev.toNat) (by have := vdev.isLt; omega)
    (not_any_iff.2 fun cur hcur heq => h cur hcur (BitVec.eq_of_toNat_eq heq))

/-- A subchannel that the search picks is in range and no device has it. -/
theorem pickSch_some {n : ℕ} (h : pickSch virtDevs = some n) :
    FreeSch virtDevs (BitVec.ofNat 32 n) := by
  obtain ⟨hle, hlt, hfree, -⟩ := firstFrom_eq_some h
  have hn : (BitVec.ofNat 32 n).toNat = n := by
    rw [BitVec.toNat_ofNat, Nat.mod_eq_of_lt (by omega)]
  refine ⟨fun cur hcur heq => not_any_iff.1 hfree cur hcur ?_, ?_⟩
  · rw [heq, hn]
  · rw [hn]
    omega

/-- If any subchannel is free, the search picks one. -/
theorem pickSch_free {sch : BitVec 32} (h : FreeSch virtDevs sch) :
    ∃ n, pickSch virtDevs = some n :=
  exists_firstFrom h.2.1 (by have := h.2.2; omega)
    (not_any_iff.2 fun cur hcur heq => h.1 cur hcur (BitVec.eq_of_toNat_eq heq))

/-- The number used is free where the call leaves the choice open. -/
theorem number_some {c : AttachCall} {vdev : BitVec 16} (h : c.number virtDevs = some vdev) :
    c.vdev = -1 → FreeVdev virtDevs vdev := by
  intro hpick
  rw [AttachCall.number, if_pos hpick] at h
  obtain ⟨n, hn, rfl⟩ := Option.map_eq_some_iff.1 h
  exact pickVdev_some hn

/-- No number is given only where the choice is open and every number is taken. -/
theorem number_none {c : AttachCall} (h : c.number virtDevs = none) :
    c.vdev = -1 ∧ ∀ vdev, ¬ FreeVdev virtDevs vdev := by
  unfold AttachCall.number at h
  split_ifs at h with hpick
  refine ⟨hpick, fun vdev hfree => ?_⟩
  obtain ⟨n, hn⟩ := pickVdev_free hfree
  rw [hn] at h
  cases h

/-- **What `guest_attach` does:** nothing, where a number it needs is not to be had,
or an allocation with numbers that are free. -/
theorem guestAttach_cases (c : AttachCall) (virtDevs : List GuestDev) :
    (((c.vdev = -1 ∧ ∀ vdev, ¬ FreeVdev virtDevs vdev) ∨ ∀ sch, ¬ FreeSch virtDevs sch) ∧
      guestAttach c virtDevs = (-ebusy, c.env.rdevs, virtDevs)) ∨
    ∃ vdev sch, (c.vdev = -1 → FreeVdev virtDevs vdev) ∧ FreeSch virtDevs sch ∧
      guestAttach c virtDevs
        = allocVirtDev c.env.malloc c.env.rdevs (c.dirVdev vdev) sch virtDevs := by
  unfold guestAttach
  cases hnumber : c.number virtDevs with
  | none => exact Or.inl ⟨Or.inl (number_none hnumber), rfl⟩
  | some vdev =>
    dsimp only
    cases hsch : pickSch virtDevs with
    | none =>
      refine Or.inl ⟨Or.inr fun sch hfree => ?_, rfl⟩
      obtain ⟨n, hn⟩ := pickSch_free hfree
      rw [hn] at hsch
      cases hsch
    | some n => exact Or.inr ⟨vdev, _, number_some hnumber, pickSch_some hsch, rfl⟩

/-! ### Any sequence of calls -/

/-- A step of the run: the guest's devices behind one call of `guest_attach`. -/
def AttachStep (virtDevs : List GuestDev) (c : AttachCall) (virtDevs' : List GuestDev) : Prop :=
  virtDevs' = (guestAttach c virtDevs).2.2

/-- **Every attach keeps the numbering**, whether it succeeds or not. -/
theorem Numbered.attach (h : Numbered virtDevs) (c : AttachCall) :
    Numbered (guestAttach c virtDevs).2.2 := by
  rcases guestAttach_cases c virtDevs with ⟨-, hcall⟩ | ⟨vdev, sch, -, ⟨hsch, hrange⟩, hcall⟩
  · rwa [hcall]
  · rcases allocVirtDev_cases c.env.malloc c.env.rdevs (c.dirVdev vdev) sch virtDevs with
      ⟨-, hsame⟩ | ⟨-, new, hadd, rfl, -⟩
    · rwa [hcall, hsame]
    · rw [hcall, hadd]
      refine h.snoc (fun hmem => ?_) hrange
      obtain ⟨cur, hcur, heq⟩ := List.mem_map.1 hmem
      exact hsch cur hcur heq

/-- **Virtual device numbering.**  After logon with at most 65536 devices and any
attaches, whatever failed, the subchannel numbers are distinct and in range.  The
next attach, whichever it is, leaves the list alone if it fails; if it succeeds and
picked the number, no device had that number; and where the numbers it needs are
free it goes on to the allocation with free ones. -/
theorem guestAttach_numbering (env : ℕ → AllocEnv) {devices : List DirVdev}
    (hcount : devices.length ≤ 0x10000) {cs : List AttachCall} {virtDevs : List GuestDev}
    (hrun : Run AttachStep (allocGuestDevices env 0 devices []) cs virtDevs) :
    Numbered virtDevs ∧ ∀ c : AttachCall,
      ((guestAttach c virtDevs).1 ≠ 0 → (guestAttach c virtDevs).2.2 = virtDevs) ∧
      ((guestAttach c virtDevs).1 = 0 → ∃ new, (guestAttach c virtDevs).2.2 = virtDevs ++ [new] ∧
        (c.vdev = -1 → FreeVdev virtDevs new.devNum)) ∧
      ((c.vdev = -1 → ∃ vdev, FreeVdev virtDevs vdev) → (∃ sch, FreeSch virtDevs sch) →
        ∃ vdev sch, (c.vdev = -1 → FreeVdev virtDevs vdev) ∧ FreeSch virtDevs sch ∧
          guestAttach c virtDevs
            = allocVirtDev c.env.malloc c.env.rdevs (c.dirVdev vdev) sch virtDevs) := by
  have hnumbered : Numbered virtDevs := by
    refine hrun.invariant ?_ ?_
    · exact allocGuestDevices_numbered env devices (by omega) ⟨List.nodup_nil, nofun⟩ nofun
    · rintro virtDevs c _ h rfl
      exact h.attach c
  refine ⟨hnumbered, fun c => ?_⟩
  rcases guestAttach_cases c virtDevs with ⟨hnone, hcall⟩ | ⟨vdev, sch, hvdev, hsch, hcall⟩
  · refine ⟨fun _ => by rw [hcall], fun hret => ?_, fun hfree hfree' => ?_⟩
    · rw [hcall] at hret
      exact absurd hret (by decide : -ebusy ≠ 0)
    · rcases hnone with ⟨hpick, hnone⟩ | hnone
      · exact absurd (hfree hpick).choose_spec (hnone _)
      · exact absurd hfree'.choose_spec (hnone _)
  · refine ⟨?_, ?_, fun _ _ => ⟨vdev, sch, hvdev, hsch, hcall⟩⟩
    · intro hret
      rcases allocVirtDev_cases c.env.malloc c.env.rdevs (c.dirVdev vdev) sch virtDevs with
        ⟨-, hsame⟩ | ⟨hzero, -⟩
      · rw [hcall, hsame]
      · rw [hcall] at hret
        exact absurd hzero hret
    · intro hret
      rcases allocVirtDev_cases c.env.malloc c.env.rdevs (c.dirVdev vdev) sch virtDevs with
        ⟨hne, -⟩ | ⟨-, new, hadd, -, hnew⟩
      · rw [hcall] at hret
        exact absurd hret hne
      · rw [hcall]
        exact ⟨new, hadd, fun hpick => hnew ▸ hvdev hpick⟩

/-- A console at logon, then an attach that picks its numbers: they are not the console's.
-/
theorem guestAttach_numbering_console :
    Numbered (guestAttach ⟨⟨true, [⟨0x20, 0x3390, 2, false⟩]⟩, 0x20, -1⟩
      (allocGuestDevices (fun _ => ⟨true, []⟩) 0 [⟨.cons, 9, 0, 0, 0⟩] [])).2.2 :=
  (@guestAttach_numbering (fun _ => ⟨true, []⟩) [⟨.cons, 9, 0, 0, 0⟩] (by decide) _ _
    (Run.nil.snoc rfl)).1

end Hvf
