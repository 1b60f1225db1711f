/-
# References to real devices

`find_device_by_ccuu` of `cp/drivers/device.c` takes a reference of the device that it
returns, with `dev_get` of `cp/include/device.h`.  `__setup_vdev_ded` keeps it for a
virtual device that gets the real one, and keeps it as well when the real one is in use
and the call fails: nothing gives it back.

So the references balance exactly as long as no call looks up a device that is in use
(`attach_refs_iff`).
-/

import Hvf.Guest.Attach

namespace Hvf

open StepRun

/-! ### The calls, with the reference counts -/

/-- `dev_get` of the device at place `k`; `none` is the `BUG_ON`. -/
def devGet (refcnt : ℕ → BitVec 32) (k : ℕ) : Option (ℕ → BitVec 32) :=
  if (refcnt k).toInt < 1 then none else some (Function.update refcnt k (refcnt k + 1))

/-- `find_device_by_ccuu`: the place of the device, and the reference counts. -/
def DevRefs.findDeviceByCcuu (rdevs : List RealDevice) (ccuu : BitVec 16) (refcnt : ℕ → BitVec 32) :
    Option (Option ℕ × (ℕ → BitVec 32)) :=
  match rdevs.findIdx? fun rdev => rdev.ccuu = ccuu with
  | none => some (none, refcnt)
  | some k => (devGet refcnt k).map fun refcnt => (some k, refcnt)

/-- **What a call returns and leaves**: its code, the real devices with their reference
counts, and the guest's devices. -/
structure DevReturn where
  ret : Int
  rdevs : List RealDevice
  refcnt : ℕ → BitVec 32
  virtDevs : List GuestDev

/-- The result of a call without reference counts, with them. -/
def DevReturn.of (refcnt : ℕ → BitVec 32) (r : Int × List RealDevice × List GuestDev) : DevReturn :=
  ⟨r.1, r.2.1, refcnt, r.2.2⟩

/-- `alloc_virt_dev`; of what it does, only `__setup_vdev_ded` uses the reference counts,
and it calls nothing but `find_device_by_ccuu` for that. -/
def allocVirtDevRefs (malloc : Bool) (rdevs : List RealDevice) (dirdev : DirVdev)
    (sch : BitVec 32) (virtDevs : List GuestDev) (refcnt : ℕ → BitVec 32) : Option DevReturn :=
  if malloc = true ∧ dirdev.type = .ded then
    (DevRefs.findDeviceByCcuu rdevs dirdev.rdev refcnt).map fun (_, refcnt) =>
      .of refcnt (allocVirtDev malloc rdevs dirdev sch virtDevs)
  else some (.of refcnt (allocVirtDev malloc rdevs dirdev sch virtDevs))

/-- `guest_attach`. -/
def guestAttachRefs (c : AttachCall) (virtDevs : List GuestDev) (refcnt : ℕ → BitVec 32) :
    Option DevReturn :=
  match c.number virtDevs with
  | none => some ⟨-ebusy, c.env.rdevs, refcnt, virtDevs⟩
  | some vdev =>
    match pickSch virtDevs with
    | none => some ⟨-ebusy, c.env.rdevs, refcnt, virtDevs⟩
    | some sch =>
      allocVirtDevRefs c.env.malloc c.env.rdevs (c.dirVdev vdev) (BitVec.ofNat 32 sch) virtDevs
        refcnt

/-! ### Runs -/

/-- The real devices, the reference counts by their places, and the virtual devices of
each guest. -/
structure DevRefs (ι : Type*) where
  rdevs : List RealDevice
  refcnt : ℕ → BitVec 32
  virtDevs : ι → List GuestDev

/-- **A call for the guest `g`**: a device of its directory entry at logon, or an attach.
`malloc` says whether the allocation succeeds. -/
inductive DevCall (ι : Type*)
  | alloc (g : ι) (malloc : Bool) (dirdev : DirVdev) (sch : BitVec 32)
  | attach (g : ι) (malloc : Bool) (rdev vdev : BitVec 64)

variable {ι : Type*}

/-- The guest of a call. -/
def DevCall.guest : DevCall ι → ι
  | .alloc g _ _ _ => g
  | .attach g _ _ _ => g

namespace DevRefs

/-- The call of `guest_attach` as the real devices stand. -/
def attachCall (s : DevRefs ι) (malloc : Bool) (rdev vdev : BitVec 64) : AttachCall :=
  ⟨⟨malloc, s.rdevs⟩, rdev, vdev⟩

/-- What a call returns. -/
def call (s : DevRefs ι) : DevCall ι → Option DevReturn
  | .alloc g malloc dirdev sch =>
    allocVirtDevRefs malloc s.rdevs dirdev sch (s.virtDevs g) s.refcnt
  | .attach g malloc rdev vdev =>
    guestAttachRefs (s.attachCall malloc rdev vdev) (s.virtDevs g) s.refcnt

variable [DecidableEq ι]

/-- What a call of the guest `g` leaves. -/
def after (s : DevRefs ι) (g : ι) (r : DevReturn) : DevRefs ι :=
  ⟨r.rdevs, r.refcnt, Function.update s.virtDevs g r.virtDevs⟩

end DevRefs

/-- **The devices, and what the calls returned**: each value with the devices as they were
before it, so that a failed call can be compared with them. -/
structure DevTrace (ι : Type*) where
  devs : DevRefs ι
  returns : List (DevRefs ι × DevReturn)

/-- A call, and what it returns. -/
def DevCalls [DecidableEq ι] (s : DevTrace ι) (c : DevCall ι) (s' : DevTrace ι) : Prop :=
  ∃ r, s.devs.call c = some r ∧
    s' = ⟨s.devs.after c.guest r, s.returns ++ [(s.devs, r)]⟩

/-! ### What a call does -/

/-- The device that is looked up is in use. -/
def LooksUpBusy (malloc : Bool) (rdevs : List RealDevice) (dirdev : DirVdev) : Prop :=
  malloc = true ∧ dirdev.type = .ded ∧ ∃ k rdev,
    (rdevs.findIdx? fun rdev => rdev.ccuu = dirdev.rdev) = some k ∧ rdevs[k]? = some rdev ∧
      rdev.inUse = true

/-- The call gets as far as the lookup, and the device is in use. -/
def Contended (s : DevRefs ι) : DevCall ι → Prop
  | .alloc _ malloc dirdev _ => LooksUpBusy malloc s.rdevs dirdev
  | .attach g malloc rdev vdev =>
    let c := s.attachCall malloc rdev vdev
    ∃ num sch, c.number (s.virtDevs g) = some num ∧ pickSch (s.virtDevs g) = some sch ∧
      LooksUpBusy malloc s.rdevs (c.dirVdev num)

/-- How a call ends: it fails, or it puts a virtual device on the list, without a real
device or with one that was not in use; or it fails and keeps a reference. -/
inductive CallEnds (busy : Prop) (rdevs : List RealDevice) (refcnt : ℕ → BitVec 32)
    (virtDevs : List GuestDev) : DevReturn → Prop
  | fails {ret : Int} : ¬ busy → ret ≠ 0 →
      CallEnds busy rdevs refcnt virtDevs ⟨ret, rdevs, refcnt, virtDevs⟩
  | plain {vdev : GuestDev} : ¬ busy → vdev.rdev = none →
      CallEnds busy rdevs refcnt virtDevs ⟨0, rdevs, refcnt, virtDevs ++ [vdev]⟩
  | takes {k : ℕ} {rdev : RealDevice} {vdev : GuestDev} : ¬ busy → rdevs[k]? = some rdev →
      rdev.inUse = false → vdev.rdev = some k →
      CallEnds busy rdevs refcnt virtDevs ⟨0, rdevs.set k { rdev with inUse := true },
        Function.update refcnt k (refcnt k + 1), virtDevs ++ [vdev]⟩
  | leaks {ret : Int} {k : ℕ} {rdev : RealDevice} : busy → ret ≠ 0 → rdevs[k]? = some rdev →
      CallEnds busy rdevs refcnt virtDevs
        ⟨ret, rdevs, Function.update refcnt k (refcnt k + 1), virtDevs⟩

/-- The list changes if the device can be set up. -/
theorem allocVirtDev_of_setup {rdevs rdevs' : List RealDevice} {dirdev : DirVdev}
    {sch : BitVec 32} {ret : Int} {vdev : GuestDev}
    (h : setupVirtDev rdevs dirdev sch = (ret, rdevs', vdev)) (virtDevs : List GuestDev) :
    allocVirtDev true rdevs dirdev sch virtDevs =
      if ret = 0 then (ret, rdevs', virtDevs ++ [vdev]) else (ret, rdevs', virtDevs) := by
  rw [allocVirtDev, if_neg (by decide), h]

/-- A device that is not dedicated, or whose allocation fails, touches no reference count. -/
theorem allocVirtDev_plain {malloc : Bool} {dirdev : DirVdev}
    (h : ¬ (malloc = true ∧ dirdev.type = .ded)) (rdevs : List RealDevice) (sch : BitVec 32)
    (virtDevs : List GuestDev) (refcnt : ℕ → BitVec 32) :
    CallEnds (LooksUpBusy malloc rdevs dirdev) rdevs refcnt virtDevs
      (.of refcnt (allocVirtDev malloc rdevs dirdev sch virtDevs)) := by
  have hbusy : ¬ LooksUpBusy malloc rdevs dirdev := fun hb => h ⟨hb.1, hb.2.1⟩
  cases malloc with
  | false => exact .fails hbusy (by decide : -enomem ≠ 0)
  | true =>
    unfold allocVirtDev setupVirtDev
    rw [if_neg (by decide)]
    cases htype : dirdev.type with
    | cons => exact .plain hbusy rfl
    | spool => exact .plain hbusy rfl
    | ded => exact absurd ⟨rfl, htype⟩ h
    | mdisk => exact .plain hbusy rfl
    | link => exact .fails hbusy (by decide : -einval ≠ 0)
    | inval => exact .fails hbusy (by decide : -einval ≠ 0)

/-- **How a call leaves the references.** One more for the device given away, one too many where
the device asked for is in use. -/
theorem allocVirtDevRefs_ends {malloc : Bool} {rdevs : List RealDevice} {dirdev : DirVdev}
    {sch : BitVec 32} {virtDevs : List GuestDev} {refcnt : ℕ → BitVec 32} {r : DevReturn}
    (h : allocVirtDevRefs malloc rdevs dirdev sch virtDevs refcnt = some r) :
    CallEnds (LooksUpBusy malloc rdevs dirdev) rdevs refcnt virtDevs r := by
  unfold allocVirtDevRefs at h
  split at h
  case isFalse hplain =>
    obtain rfl := Option.some.inj h
    exact allocVirtDev_plain hplain rdevs sch virtDevs refcnt
  case isTrue hded =>
    obtain ⟨rfl, htype⟩ := hded
    obtain ⟨⟨found, refcnt'⟩, hfound, rfl⟩ := Option.map_eq_some_iff.1 h
    unfold DevRefs.findDeviceByCcuu at hfound
    cases hfind : rdevs.findIdx? fun rdev => rdev.ccuu = dirdev.rdev with
    | none =>
      rw [hfind] at hfound
      obtain ⟨-, rfl⟩ := Prod.mk.inj (Option.some.inj hfound)
      have hbusy : ¬ LooksUpBusy true rdevs dirdev := by
        rintro ⟨-, -, k, rdev, hk, -⟩
        rw [hfind] at hk
        cases hk
      rw [allocVirtDev_of_setup (by simp only [setupVirtDev, htype, _setupVdevDed, hfind]; rfl)]
      exact .fails hbusy (by decide : -enoent ≠ 0)
    | some k =>
      rw [hfind] at hfound
      obtain ⟨refcnt'', hget, heq⟩ := Option.map_eq_some_iff.1 hfound
      obtain ⟨-, rfl⟩ := Prod.mk.inj heq
      unfold devGet at hget
      split at hget
      · cases hget
      obtain rfl := Option.some.inj hget
      have hlt : k < rdevs.length := (List.findIdx?_eq_some_iff_getElem.1 hfind).1
      have hk : rdevs[k]? = some rdevs[k] := List.getElem?_eq_getElem hlt
      by_cases hbusy : rdevs[k].inUse = true
      · rw [allocVirtDev_of_setup (by
          simp only [setupVirtDev, htype, _setupVdevDed, hfind, hk, hbusy, if_true]; rfl)]
        exact .leaks ⟨rfl, htype, k, _, hfind, hk, hbusy⟩ (by decide : -ebusy ≠ 0) hk
      · have hfree : ¬ LooksUpBusy true rdevs dirdev := by
          rintro ⟨-, -, k', rdev, hk', hrdev, hin⟩
          obtain rfl := Option.some.inj (hfind.symm.trans hk')
          obtain rfl := Option.some.inj (hk.symm.trans hrdev)
          exact hbusy hin
        rw [allocVirtDev_of_setup (by
          simp only [setupVirtDev, htype, _setupVdevDed, hfind, hk, hbusy]; rfl)]
        exact .takes hfree hk (by simpa using hbusy) rfl

/-- The counts aside, `guest_attach` is what it was. -/
theorem guestAttachRefs_forget {c : AttachCall} {virtDevs : List GuestDev}
    {refcnt : ℕ → BitVec 32} {r : DevReturn} (h : guestAttachRefs c virtDevs refcnt = some r) :
    r = .of r.refcnt (guestAttach c virtDevs) := by
  unfold guestAttachRefs at h
  unfold guestAttach
  cases hnumber : c.number virtDevs with
  | none =>
    rw [hnumber] at h
    obtain rfl := Option.some.inj h
    rfl
  | some vdev =>
    rw [hnumber] at h
    dsimp only at h ⊢
    cases hsch : pickSch virtDevs with
    | none =>
      rw [hsch] at h
      obtain rfl := Option.some.inj h
      rfl
    | some sch =>
      rw [hsch] at h
      dsimp only [allocVirtDevRefs] at h
      split at h
      · obtain ⟨_, -, rfl⟩ := Option.map_eq_some_iff.1 h
        rfl
      · obtain rfl := Option.some.inj h
        rfl

/-- The end of a call depends on whether the device is in use, not on how that is said. -/
theorem CallEnds.congr {busy busy' : Prop} {rdevs : List RealDevice} {refcnt : ℕ → BitVec 32}
    {virtDevs : List GuestDev} {r : DevReturn} (h : CallEnds busy rdevs refcnt virtDevs r)
    (hbusy : busy ↔ busy') : CallEnds busy' rdevs refcnt virtDevs r := by
  rwa [← propext hbusy]

/-- Every call of the run ends in one of these ways. -/
theorem call_ends {s : DevRefs ι} {c : DevCall ι} {r : DevReturn} (h : s.call c = some r) :
    CallEnds (Contended s c) s.rdevs s.refcnt (s.virtDevs c.guest) r := by
  cases c with
  | alloc g malloc dirdev sch => exact allocVirtDevRefs_ends h
  | attach g malloc rdev vdev =>
    unfold DevRefs.call guestAttachRefs at h
    dsimp only at h
    cases hnumber : (s.attachCall malloc rdev vdev).number (s.virtDevs g) with
    | none =>
      rw [hnumber] at h
      obtain rfl := Option.some.inj h
      refine .fails ?_ (by decide : -ebusy ≠ 0)
      rintro ⟨num, sch, hnum, -⟩
      rw [hnumber] at hnum
      cases hnum
    | some num =>
      rw [hnumber] at h
      dsimp only at h
      cases hsch : pickSch (s.virtDevs g) with
      | none =>
        rw [hsch] at h
        obtain rfl := Option.some.inj h
        refine .fails ?_ (by decide : -ebusy ≠ 0)
        rintro ⟨num', sch, -, hpick, -⟩
        rw [hsch] at hpick
        cases hpick
      | some sch =>
        rw [hsch] at h
        refine (allocVirtDevRefs_ends h).congr ⟨fun hbusy => ⟨num, sch, hnumber, hsch, hbusy⟩, ?_⟩
        rintro ⟨num', sch', hnum, -, hbusy⟩
        obtain rfl := Option.some.inj (hnumber.symm.trans hnum)
        exact hbusy

/-! ### The balance -/

variable [Fintype ι]

/-- How many virtual devices hold the real device at place `k`. -/
def holders (s : DevRefs ι) (k : ℕ) : ℕ :=
  ∑ g, (s.virtDevs g).countP fun vdev => vdev.rdev = some k

/-- **The references of a real device**, which was `rdev₀` at the start: one more than then
while a guest has it, and in use exactly then, or if it was so from the start. -/
structure BalancedAt (base s : DevRefs ι) (k : ℕ) (rdev₀ rdev : RealDevice) : Prop where
  count : (s.refcnt k).toInt = (base.refcnt k).toInt + holders s k
  inUse : rdev.inUse = true ↔ rdev₀.inUse = true ∨ 0 < holders s k
  one : holders s k ≤ 1

/-- **The references balance**: every real device has the count it had at the start, and one
more while a guest has it. -/
def RefsBalance (base s : DevRefs ι) : Prop :=
  ∀ k rdev, s.rdevs[k]? = some rdev →
    ∃ rdev₀, base.rdevs[k]? = some rdev₀ ∧ BalancedAt base s k rdev₀ rdev

/-- **The references balance, and no call that failed changed a count or a device.** This is
the property that a run keeps as long as no call meets a device in use. -/
structure TraceBalances (base : DevRefs ι) (s : DevTrace ι) : Prop where
  now : RefsBalance base s.devs
  failed : ∀ p ∈ s.returns, p.2.ret ≠ 0 → p.2.refcnt = p.1.refcnt ∧ p.2.rdevs = p.1.rdevs

/-- There are real devices, and no virtual ones. -/
def DevRefs.start (rdevs : List RealDevice) (refcnt : ℕ → BitVec 32) : DevRefs ι :=
  ⟨rdevs, refcnt, fun _ => []⟩

/-- They balance before the first call. -/
theorem refsBalance_start (rdevs : List RealDevice) (refcnt : ℕ → BitVec 32) :
    RefsBalance (DevRefs.start (ι := ι) rdevs refcnt) (.start rdevs refcnt) := by
  intro k rdev hk
  have hzero : holders (DevRefs.start (ι := ι) rdevs refcnt) k = 0 :=
    Finset.sum_eq_zero fun _ _ => rfl
  refine ⟨rdev, hk, ?_, ?_, ?_⟩
  · rw [hzero, Nat.cast_zero, add_zero]
  · rw [hzero]
    simp
  · rw [hzero]
    exact Nat.zero_le 1

/-- A count below the greatest signed one grows by one as a number. -/
theorem toInt_add_one {x : BitVec 32} (h : x.toInt < 2 ^ 31 - 1) : (x + 1).toInt = x.toInt + 1 := by
  have hone : (1 : BitVec 32).toInt = 1 := rfl
  have hlow := BitVec.le_toInt x
  rw [BitVec.toInt_add, hone, Int.bmod_eq_of_le]
  · norm_num at hlow ⊢
    omega
  · norm_num at h ⊢
    omega

section

variable [DecidableEq ι]

/-- Virtual devices are put on the list of one guest. -/
theorem holders_after (s : DevRefs ι) (g : ι) {r : DevReturn} {new : List GuestDev}
    (h : r.virtDevs = s.virtDevs g ++ new) (k : ℕ) :
    holders (s.after g r) k = holders s k + new.countP fun vdev => vdev.rdev = some k := by
  have hcount : ∀ i, ((s.after g r).virtDevs i).countP (fun vdev => vdev.rdev = some k) =
      (s.virtDevs i).countP (fun vdev => vdev.rdev = some k) +
        if i = g then new.countP (fun vdev => vdev.rdev = some k) else 0 := by
    intro i
    dsimp only [DevRefs.after]
    by_cases hi : i = g
    · rw [hi, Function.update_self, if_pos rfl, h, List.countP_append]
    · rw [Function.update_of_ne hi, if_neg hi, Nat.add_zero]
  rw [holders, holders, Finset.sum_congr rfl fun i _ => hcount i, Finset.sum_add_distrib,
    Finset.sum_ite_eq' Finset.univ g, if_pos (Finset.mem_univ g)]

/-- **A call keeps the balance exactly when** it does not look up a device in use. -/
theorem refsBalance_step {base s : DevRefs ι} {c : DevCall ι} {r : DevReturn}
    (hroom : ∀ k < base.rdevs.length, (base.refcnt k).toInt < 2 ^ 31 - 1)
    (hs : RefsBalance base s) (h : s.call c = some r) :
    (RefsBalance base (s.after c.guest r) ∧
      (r.ret ≠ 0 → r.refcnt = s.refcnt ∧ r.rdevs = s.rdevs)) ↔ ¬ Contended s c := by
  cases call_ends h with
  | @fails ret hfree hret =>
    refine iff_of_true ⟨fun k rdev hk => ?_, fun _ => ⟨rfl, rfl⟩⟩ hfree
    obtain ⟨rdev₀, hrdev₀, hcount, huse, hone⟩ := hs k rdev hk
    have hsame := holders_after s c.guest (r := ⟨ret, s.rdevs, s.refcnt, s.virtDevs c.guest⟩)
      (List.append_nil _).symm k
    rw [List.countP_nil, Nat.add_zero] at hsame
    exact ⟨rdev₀, hrdev₀, by rw [hsame]; exact hcount, by rw [hsame]; exact huse,
      by rw [hsame]; exact hone⟩
  | @plain vdev hfree hvdev =>
    refine iff_of_true ⟨fun k rdev hk => ?_, fun hret => absurd rfl hret⟩ hfree
    obtain ⟨rdev₀, hrdev₀, hcount, huse, hone⟩ := hs k rdev hk
    have hsame := holders_after s c.guest
      (r := ⟨0, s.rdevs, s.refcnt, s.virtDevs c.guest ++ [vdev]⟩) rfl k
    rw [List.countP_singleton, hvdev, if_neg (by simp), Nat.add_zero] at hsame
    exact ⟨rdev₀, hrdev₀, by rw [hsame]; exact hcount, by rw [hsame]; exact huse,
      by rw [hsame]; exact hone⟩
  | @takes k rdev vdev hfree hk hin hvdev =>
    refine iff_of_true ⟨fun j rdev' hj => ?_, fun hret => absurd rfl hret⟩ hfree
    have hafter := holders_after s c.guest
      (r := ⟨0, s.rdevs.set k { rdev with inUse := true },
        Function.update s.refcnt k (s.refcnt k + 1), s.virtDevs c.guest ++ [vdev]⟩) rfl j
    rw [List.countP_singleton, hvdev] at hafter
    dsimp only [DevRefs.after] at hj hafter ⊢
    by_cases hjk : j = k
    · -- the device that is taken, by its first holder
      subst hjk
      obtain ⟨rdev₀, hrdev₀, hcount, huse, hone⟩ := hs j rdev hk
      rw [hin] at huse
      have hnot : rdev₀.inUse = false ∧ holders s j = 0 := by
        have := huse.not.1 (by decide)
        push Not at this
        exact ⟨by simpa using this.1, by omega⟩
      have hlt := (List.getElem?_eq_some_iff.1 hk).1
      rw [List.getElem?_set_self hlt] at hj
      obtain rfl := Option.some.inj hj
      rw [if_pos (by simp), hnot.2] at hafter
      refine ⟨rdev₀, hrdev₀, ?_, ?_, ?_⟩
      · have hbase := hroom j (List.getElem?_eq_some_iff.1 hrdev₀).1
        rw [hnot.2, Nat.cast_zero, add_zero] at hcount
        show (Function.update s.refcnt j (s.refcnt j + 1) j).toInt = _
        rw [Function.update_self, toInt_add_one (by omega), hcount, hafter, Nat.zero_add,
          Nat.cast_one]
      · rw [hafter]
        simp
      · rw [hafter]
    · rw [List.getElem?_set_ne (Ne.symm hjk)] at hj
      obtain ⟨rdev₀, hrdev₀, hcount, huse, hone⟩ := hs j rdev' hj
      rw [if_neg (by simpa using Ne.symm hjk), Nat.add_zero] at hafter
      refine ⟨rdev₀, hrdev₀, ?_, by rw [hafter]; exact huse, by rw [hafter]; exact hone⟩
      show (Function.update s.refcnt k (s.refcnt k + 1) j).toInt = _
      rw [Function.update_of_ne hjk, hafter, hcount]
  | @leaks ret k rdev hbusy hret hk =>
    refine iff_of_false (fun hboth => ?_) (not_not.2 hbusy)
    have hsame := congrFun (hboth.2 hret).1 k
    dsimp only at hsame
    rw [Function.update_self] at hsame
    exact absurd ((BitVec.add_right_eq_self).1 hsame) (by decide)

/-- **One call and the balance.** The counts still balance behind a call exactly when it met no
device in use. -/
theorem tracesBalance_step {base : DevRefs ι} {s s' : DevTrace ι} {c : DevCall ι}
    (hroom : ∀ k < base.rdevs.length, (base.refcnt k).toInt < 2 ^ 31 - 1)
    (hs : TraceBalances base s) (hstep : DevCalls s c s') :
    TraceBalances base s' ↔ ¬ Contended s.devs c := by
  obtain ⟨r, hcall, rfl⟩ := hstep
  rw [← refsBalance_step hroom hs.now hcall]
  constructor
  · intro h
    exact ⟨h.now, h.failed (s.devs, r) (List.mem_append_right _ (List.mem_singleton_self _))⟩
  · rintro ⟨hnow, hfailed⟩
    refine ⟨hnow, fun p hp => ?_⟩
    rcases List.mem_append.1 hp with hp | hp
    · exact hs.failed p hp
    · obtain rfl := List.mem_singleton.1 hp
      exact hfailed

/-- **The references balance exactly as long as** no call gets as far as the lookup of a
real device that is in use: then, and only then, each count is above what it was by the
number of virtual devices that hold the device, which is in use if it was or if one does,
and at most one does; and no call that failed left a trace. -/
theorem attach_refs_iff (rdevs : List RealDevice) (refcnt : ℕ → BitVec 32)
    (hroom : ∀ k < rdevs.length, (refcnt k).toInt < 2 ^ 31 - 1) {cs : List (DevCall ι)}
    {s : DevTrace ι} (hrun : Run DevCalls ⟨.start rdevs refcnt, []⟩ cs s) :
    (∀ cs' s', cs' <+: cs → Run DevCalls ⟨.start rdevs refcnt, []⟩ cs' s' →
        TraceBalances (.start rdevs refcnt) s') ↔
      Run (guarded (fun s c => ¬ Contended s.devs c) DevCalls) ⟨.start rdevs refcnt, []⟩ cs s := by
  refine Run.always_iff (P := fun _ s => TraceBalances (.start rdevs refcnt) s) ?_ ?_ ?_ hrun
  · rintro t c u u' ⟨r, hr, rfl⟩ ⟨r', hr', rfl⟩
    obtain rfl := Option.some.inj (hr.symm.trans hr')
    rfl
  · exact ⟨refsBalance_start rdevs refcnt, fun _ hp => absurd hp List.not_mem_nil⟩
  · intro cs t c u _ ht hstep
    exact tracesBalance_step hroom ht hstep

end

/-- The call with its result. -/
def DevTrace.call [DecidableEq ι] (s : DevTrace ι) (c : DevCall ι) : Option (DevTrace ι) :=
  (s.devs.call c).map fun r => ⟨s.devs.after c.guest r, s.returns ++ [(s.devs, r)]⟩

/-- No real device with the number that the call asks for is in use. -/
def freeFor (s : DevTrace ι) : DevCall ι → Bool
  | .alloc _ _ dirdev _ => s.devs.rdevs.all fun r => r.ccuu ≠ dirdev.rdev || !r.inUse
  | .attach _ _ rdev _ => s.devs.rdevs.all fun r => r.ccuu ≠ rdev.setWidth 16 || !r.inUse

/-- If every device of that number is free, the call meets none in use. -/
theorem not_looksUpBusy {malloc : Bool} {rdevs : List RealDevice} {dirdev : DirVdev}
    (h : (rdevs.all fun r => r.ccuu ≠ dirdev.rdev || !r.inUse) = true) :
    ¬ LooksUpBusy malloc rdevs dirdev := by
  rintro ⟨-, -, k, rdev, hfind, hk, huse⟩
  obtain ⟨hlt, hccuu, -⟩ := List.findIdx?_eq_some_iff_getElem.1 hfind
  obtain ⟨_, rfl⟩ := List.getElem?_eq_some_iff.1 hk
  rcases Bool.or_eq_true_iff.1 (List.all_eq_true.1 h _ (List.getElem_mem hlt)) with hne | hfree
  · exact of_decide_eq_true hne (of_decide_eq_true hccuu)
  · rw [huse] at hfree
    cases hfree

omit [Fintype ι] in
/-- The check of the examples is enough: a call it passes meets no device in use. -/
theorem not_contended_of_freeFor (s : DevTrace ι) (c : DevCall ι) (h : freeFor s c = true) :
    ¬ Contended s.devs c := by
  cases c with
  | alloc g malloc dirdev sch => exact not_looksUpBusy h
  | attach g malloc rdev vdev =>
    rintro ⟨num, sch, -, -, hbusy⟩
    have hfree : (s.devs.rdevs.all fun r => r.ccuu ≠
        ((s.devs.attachCall malloc rdev vdev).dirVdev num).rdev || !r.inUse) = true := h
    exact not_looksUpBusy hfree hbusy

/-- Two disks that nobody uses. -/
def twoDisks : List RealDevice := [⟨0x20, 0x3390, 2, false⟩, ⟨0x21, 0x3390, 2, false⟩]

/-- One guest gets the first disk.  The other asks for the second one, without memory for
it, for a device that there is not and for the second one again, and gets a console. -/
def diskCalls : List (DevCall Bool) :=
  [.alloc false true ⟨.ded, 0x190, 0x20, 0, 0⟩ 0x10000, .attach true false 0x21 0x300,
    .attach true true 0x99 0x300, .attach true true 0x21 0x300,
    .alloc true true ⟨.cons, 9, 0, 0, 0⟩ 0x10005]

/-- The references balance behind each of several calls, two of which fail: one has no
storage, the other no such device. -/
theorem attach_refs_iff_calls : ∃ s : DevTrace Bool,
    Run DevCalls ⟨.start twoDisks fun _ => 1, []⟩ diskCalls s ∧
    s.returns.map (fun p => p.2.ret) = [0, -enomem, -enoent, 0, 0] ∧
    ∀ cs' s', cs' <+: diskCalls → Run DevCalls ⟨.start twoDisks fun _ => 1, []⟩ cs' s' →
      TraceBalances (.start twoDisks fun _ => 1) s' := by
  have hsome : (diskCalls.foldlM (fun s c => if freeFor s c then s.call c else none)
      (⟨.start twoDisks fun _ => 1, []⟩ : DevTrace Bool)).map
        (fun s => s.returns.map fun p => p.2.ret) = some [0, -enomem, -enoent, 0, 0] := by
    decide +kernel
  obtain ⟨s, hs, hrets⟩ := Option.map_eq_some_iff.1 hsome
  have hrun : Run (guarded (fun s c => ¬ Contended s.devs c) DevCalls)
      ⟨.start twoDisks fun _ => 1, []⟩ diskCalls s := by
    refine (Run.of_checked not_contended_of_freeFor hs).mono fun _ _ _ h => ⟨h.1, ?_⟩
    obtain ⟨r, hr, heq⟩ := Option.map_eq_some_iff.1 h.2
    exact ⟨r, hr, heq.symm⟩
  exact ⟨s, hrun.of_guarded, hrets, (attach_refs_iff twoDisks _ (by decide) hrun.of_guarded).2 hrun⟩

/-- A disk that nobody uses. -/
def oneDisk : List RealDevice := [⟨0x20, 0x3390, 2, false⟩]

/-- A guest gets the disk. -/
def dedicateDisk : DevCall Unit := .alloc () true ⟨.ded, 0x190, 0x20, 0, 0⟩ 0x10000

/-- **The disk is asked for twice:** the second call fails with `-EBUSY`, and the reference
that its lookup took stays. -/
theorem not_attach_refs : ¬ ∀ (rdevs : List RealDevice) (refcnt : ℕ → BitVec 32),
    (∀ k < rdevs.length, (refcnt k).toInt < 2 ^ 31 - 1) → ∀ (cs : List (DevCall Unit)) s,
      Run DevCalls ⟨.start rdevs refcnt, []⟩ cs s → TraceBalances (.start rdevs refcnt) s := by
  intro h
  have hrun : Run DevCalls ⟨.start oneDisk fun _ => 1, []⟩ [dedicateDisk, dedicateDisk] _ :=
    (Run.nil.snoc ⟨_, rfl, rfl⟩).snoc ⟨_, rfl, rfl⟩
  obtain ⟨rdev₀, -, hcount, -⟩ := (h oneDisk _ (by decide) _ _ hrun).now 0 _ rfl
  exact absurd hcount (by decide)

end Hvf
