/-
# Virtual devices

`cp/drivers/vdevice.c`.  `alloc_virt_dev` makes a `struct virt_device` from a
directory entry and puts it at the end of the guest's list; a dedicated device
takes a real device that is not in use.

`malloc` says whether the allocation succeeds, and `rdevs` is the list of real
devices at that moment.
-/

import Hvf.Errno
import Hvf.Guest.SpoolExec

namespace Hvf

/-- `struct directory_vdev`: `rdev` of a dedicated device, `spType` and `spModel`
of a spooled one. -/
structure DirVdev where
  type : Vdevtype
  vdev : BitVec 16
  rdev : BitVec 16
  spType : BitVec 16
  spModel : BitVec 8

/-- **What dedicating a real device uses** of its `struct device`: its number, type and
model, and whether a guest has it. -/
structure RealDevice where
  ccuu : BitVec 16
  type : BitVec 16
  model : BitVec 8
  inUse : Bool
deriving DecidableEq

/-- What `alloc_virt_dev` sets in a `struct virt_device`: `rdev` is the place of the
real device, and `consOps` says that `u.spool.ops` is `spool_cons_ops`. -/
structure GuestDev where
  vtype : Vdevtype
  sch : BitVec 32
  type : BitVec 16
  model : BitVec 8
  v : Bool
  devNum : BitVec 16
  lpm : BitVec 8
  pim : BitVec 8
  pom : BitVec 8
  pam : BitVec 8
  rdev : Option ℕ
  consOps : Bool
deriving DecidableEq

/-- `__setup_vdev_ded`. -/
def _setupVdevDed (rdevs : List RealDevice) (dirdev : DirVdev) (vdev : GuestDev) :
    Int × List RealDevice × GuestDev :=
  match rdevs.findIdx? fun rdev => rdev.ccuu = dirdev.rdev with
  | none => (-enoent, rdevs, vdev)
  | some k =>
    match rdevs[k]? with
    | none => (-enoent, rdevs, vdev)
    | some rdev =>
      if rdev.inUse then (-ebusy, rdevs, vdev)
      else (0, rdevs.set k { rdev with inUse := true },
        { vdev with rdev := some k, type := rdev.type, model := rdev.model })

/-- What `alloc_virt_dev` sets up for the kind of device; the type and the model of
the allocated memory are 0 here, and every kind that succeeds sets both. -/
def setupVirtDev (rdevs : List RealDevice) (dirdev : DirVdev) (sch : BitVec 32) :
    Int × List RealDevice × GuestDev :=
  let vdev : GuestDev :=
    { vtype := dirdev.type, sch, type := 0, model := 0, v := true, devNum := dirdev.vdev
      lpm := 0x80, pim := 0x80, pom := 0xff, pam := 0x80, rdev := none, consOps := false }
  match dirdev.type with
  | .cons => (0, rdevs, { vdev with consOps := true, type := 0x3215, model := 0 })
  | .spool => (0, rdevs, { vdev with type := dirdev.spType, model := dirdev.spModel })
  | .ded => _setupVdevDed rdevs dirdev vdev
  | .mdisk => (0, rdevs, { vdev with type := 0x3390, model := 3 })
  | .link => (-einval, rdevs, vdev)
  | .inval => (-einval, rdevs, vdev)

/-- `alloc_virt_dev`: the value it returns, the real devices and the list. -/
def allocVirtDev (malloc : Bool) (rdevs : List RealDevice) (dirdev : DirVdev) (sch : BitVec 32)
    (virtDevs : List GuestDev) : Int × List RealDevice × List GuestDev :=
  if malloc = false then (-enomem, rdevs, virtDevs)
  else
    let (ret, rdevs, vdev) := setupVirtDev rdevs dirdev sch
    if ret = 0 then (ret, rdevs, virtDevs ++ [vdev]) else (ret, rdevs, virtDevs)

/-- A real device is dedicated to one virtual device. -/
theorem setupVdevDed_keeps (rdevs : List RealDevice) (dirdev : DirVdev) (vdev : GuestDev) :
    (_setupVdevDed rdevs dirdev vdev).2.2.sch = vdev.sch ∧
      (_setupVdevDed rdevs dirdev vdev).2.2.devNum = vdev.devNum := by
  unfold _setupVdevDed
  split
  · exact ⟨rfl, rfl⟩
  · split
    · exact ⟨rfl, rfl⟩
    · split_ifs
      · exact ⟨rfl, rfl⟩
      · exact ⟨rfl, rfl⟩

/-- Whatever a directory entry asks for, the device made of it has the subchannel given and the
number the entry names. -/
theorem setupVirtDev_keeps (rdevs : List RealDevice) (dirdev : DirVdev) (sch : BitVec 32) :
    (setupVirtDev rdevs dirdev sch).2.2.sch = sch ∧
      (setupVirtDev rdevs dirdev sch).2.2.devNum = dirdev.vdev := by
  unfold setupVirtDev
  cases dirdev.type with
  | cons => exact ⟨rfl, rfl⟩
  | spool => exact ⟨rfl, rfl⟩
  | ded => exact setupVdevDed_keeps rdevs dirdev _
  | mdisk => exact ⟨rfl, rfl⟩
  | link => exact ⟨rfl, rfl⟩
  | inval => exact ⟨rfl, rfl⟩

/-- **A virtual device is put at the end of the list** with its numbers, or the list
is left alone. -/
theorem allocVirtDev_cases (malloc : Bool) (rdevs : List RealDevice) (dirdev : DirVdev)
    (sch : BitVec 32) (virtDevs : List GuestDev) :
    ((allocVirtDev malloc rdevs dirdev sch virtDevs).1 ≠ 0 ∧
      (allocVirtDev malloc rdevs dirdev sch virtDevs).2.2 = virtDevs) ∨
    ((allocVirtDev malloc rdevs dirdev sch virtDevs).1 = 0 ∧
      ∃ vdev, (allocVirtDev malloc rdevs dirdev sch virtDevs).2.2 = virtDevs ++ [vdev] ∧
        vdev.sch = sch ∧ vdev.devNum = dirdev.vdev) := by
  unfold allocVirtDev
  split_ifs with hmalloc
  · exact Or.inl ⟨(by decide : -enomem ≠ 0), rfl⟩
  · obtain ⟨hsch, hnum⟩ := setupVirtDev_keeps rdevs dirdev sch
    by_cases hret : (setupVirtDev rdevs dirdev sch).1 = 0
    · simp only [hret, if_true]
      exact Or.inr ⟨trivial, _, rfl, hsch, hnum⟩
    · simp only [hret, if_false]
      exact Or.inl ⟨hret, trivial⟩

end Hvf
