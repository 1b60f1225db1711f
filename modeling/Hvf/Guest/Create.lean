/-
# What a new guest has from old storage

`guest_create` of `cp/guest/init.c` takes its `struct virt_sys` and each `struct
virt_device` from `malloc`, which hands out storage as it was left.  It stores into
them member by member, and not into all: the table pointers of the address space stay,
so does all of a device's SCSW, and of its PMCW the members `pmcwLeft`; and
`con_printf` looks at `print_ts` before it is set.  `guestCreate_same_iff` says that two
new guests are the same exactly if these were.

`OldSys` and the old devices are the storage that `malloc` returns.
-/

import Hvf.Guest.Attach
import Hvf.Guest.Online
import Hvf.Guest.StorageMap
import Hvf.Guest.VdevReads

namespace Hvf

open BitField

/-! ### Devices -/

/-- The stores into the PMCW. -/
def GuestDev.pmcw (d : GuestDev) (pmcw : BitVec 224) : BitVec 224 :=
  let pmcw := pmcwV.set (if d.v then 1 else 0) pmcw
  let pmcw := pmcwDevNum.set d.devNum pmcw
  let pmcw := pmcwLpm.set d.lpm pmcw
  let pmcw := pmcwPim.set d.pim pmcw
  let pmcw := pmcwPom.set d.pom pmcw
  pmcwPam.set d.pam pmcw

/-- The stores of `alloc_virt_dev` into the storage that it has from `malloc`. -/
def GuestDev.store (d : GuestDev) (old : VirtDevice) : VirtDevice :=
  { old with
    vtype := d.vtype
    sch := d.sch
    file := if d.vtype = .cons ∨ d.vtype = .spool then none else old.file
    ops := if d.vtype = .cons ∨ d.vtype = .spool then
      if d.consOps then some spoolConsOps else none else old.ops
    pmcw := d.pmcw old.pmcw }

/-- `alloc_virt_dev`: the value it returns, and the device if it is put on the list. -/
def allocVirtDevIn (env : AllocEnv) (old : VirtDevice) (dirdev : DirVdev) (sch : BitVec 32) :
    Int × Option VirtDevice :=
  if env.malloc = false then (-enomem, none)
  else
    match setupVirtDev env.rdevs dirdev sch with
    | (ret, _, vdev) => (ret, if ret = 0 then some (vdev.store old) else none)

/-! ### Messages -/

/-- What `vprintf` puts together for a device that is not allocated: whether there is a time
stamp, and the arguments. -/
structure ConLine where
  stamped : Bool
  vdev : BitVec 16
  sch : BitVec 32
  err : Int
deriving DecidableEq

/-- `con_printf` of the message of `alloc_guest_devices`. -/
def conPrintf (printTs : BitVec 32) (vdev : BitVec 16) (sch : BitVec 32) (err : Int) : ConLine :=
  ⟨printTs ≠ 0, vdev, sch, err⟩

/-- The subchannel number of the device at position `i`. -/
def vdevSch (i : ℕ) : BitVec 32 := 0x10000 + BitVec.ofNat 32 i

/-- `alloc_guest_devices` from position `i` on: the devices and the messages. -/
def createVdevs (env : ℕ → AllocEnv) (old : ℕ → VirtDevice) (printTs : BitVec 32) :
    ℕ → List DirVdev → List VirtDevice × List ConLine
  | _, [] => ([], [])
  | i, cur :: devices =>
    let (vdevs, lines) := createVdevs env old printTs (i + 1) devices
    match allocVirtDevIn (env i) (old i) cur (vdevSch i) with
    | (ret, vdev) =>
      (vdev.toList ++ vdevs,
        if ret ≠ 0 then conPrintf printTs cur.vdev (vdevSch i) (-ret) :: lines else lines)

/-! ### `guest_create` -/

/-- **A user's directory entry** (`struct user`), as far as the making of a guest uses it.
-/
structure DirUser where
  userid : List UInt8
  storageSize : BitVec 64
  devices : List DirVdev

/-- `struct virt_cons`: the real device, the addresses and contents of the spool files, and
the address of the buffer. -/
structure VirtCons where
  dev : ℕ
  wlines : ℕ × SpoolFile
  rlines : ℕ × SpoolFile
  bigbuf : ℕ

/-- What a `struct virt_sys` from `malloc` has in the members that are looked at before they
are set. -/
structure OldSys where
  regionTable : ℕ
  segmentTable : ℕ
  printTs : BitVec 32

/-- What a call of `guest_create` meets besides: the names that are online, the directory,
its arguments, the results of its allocations, and the tables in storage. -/
structure CreateEnv where
  online : List (List UInt8)
  directory : List DirUser
  name : List UInt8
  rcon : ℕ
  sys : Bool
  wlines : Option ℕ
  rlines : Option ℕ
  bigbuf : Option ℕ
  vdevs : ℕ → AllocEnv
  mem : ℕ → BitVec 64
  pages : List (Option ℕ)
  vcpu : Bool

/-- **The new guest**: its console, its devices in their order, the lines printed on the
way, its storage, and whether it prints time stamps; `user` is the place of its directory
entry. -/
structure NewSys where
  con : VirtCons
  user : ℕ
  vdevs : List VirtDevice
  lines : List ConLine
  storage : GuestStorage
  printTs : BitVec 32

/-- **How `guest_create` ends without a guest**: it returns `NULL`, or an assertion stops
the machine. -/
inductive CreateEnd
  | null
  | halted
deriving DecidableEq

/-- `alloc_console`, and the real device. -/
def allocConsole (env : CreateEnv) : Option VirtCons := do
  let wlines ← env.wlines
  let rlines ← env.rlines
  let bigbuf ← env.bigbuf
  return ⟨env.rcon, (wlines, allocSpool), (rlines, allocSpool), bigbuf⟩

/-- The address space before `alloc_guest_storage`: its table pointers are not set. -/
def OldSys.as (sys : OldSys) (mem : ℕ → BitVec 64) (pages : List (Option ℕ)) : GuestStorage :=
  .init ⟨sys.regionTable, sys.segmentTable⟩ mem pages

/-- The devices of the directory entry. -/
def CreateEnv.user (env : CreateEnv) : Option (ℕ × DirUser) := do
  let u ← findUserById (env.directory.map DirUser.userid) env.name
  let user ← env.directory[u]?
  return (u, user)

/-- `guest_create`, with the `struct virt_sys` and the devices over old storage. -/
def guestCreate (env : CreateEnv) (sys : OldSys) (old : ℕ → VirtDevice) :
    Except CreateEnd NewSys :=
  if env.online.any fun userid => strcmp userid env.name = 0 then .error .null
  else if env.sys = false then .error .null
  else
    match allocConsole env, env.user with
    | none, _ => .error .null
    | _, none => .error .null
    | some con, some (u, user) =>
      let (vdevs, lines) := createVdevs env.vdevs old sys.printTs 0 user.devices
      match fillGuestStorage (user.storageSize >>> pageShift).toNat (sys.as env.mem env.pages) with
      | some (0, storage) =>
        if env.vcpu = false then .error .halted else .ok ⟨con, u, vdevs, lines, storage, 1⟩
      | _ => .error .halted

/-! ### Two guests -/

/-- The members of a PMCW that `alloc_virt_dev` sets. -/
def pmcwSet : List (Σ len, Field 224 len) :=
  [⟨_, pmcwV⟩, ⟨_, pmcwDevNum⟩, ⟨_, pmcwLpm⟩, ⟨_, pmcwPim⟩, ⟨_, pmcwPom⟩, ⟨_, pmcwPam⟩]

/-- The members that it leaves. -/
def pmcwLeft : List (Σ len, Field 224 len) :=
  [⟨_, pmcwInterruptParam⟩, ⟨_, pmcwZero1⟩, ⟨_, pmcwIsc⟩, ⟨_, pmcwZero2⟩, ⟨_, pmcwE⟩,
    ⟨_, pmcwLm⟩, ⟨_, pmcwMm⟩, ⟨_, pmcwD⟩, ⟨_, pmcwT⟩, ⟨_, pmcwPnom⟩, ⟨_, pmcwLpum⟩,
    ⟨_, pmcwMbi⟩, ⟨_, pmcwZero3⟩, ⟨_, pmcwZero4⟩, ⟨_, pmcwF⟩, ⟨_, pmcwX⟩, ⟨_, pmcwS⟩] ++
    (List.finRange 8).map fun i => ⟨_, pmcwChpid i⟩

/-- The new guests are equal in what is looked at: the address space with its tables, the
devices, the console and the messages.  So are the results of the first instructions, of
`dat_insert_page` and of `con_printf`, whatever else there is. -/
structure SameSys (g g' : NewSys) : Prop where
  storage : g'.storage = g.storage
  vdevs : List.Forall₂ SameVdev g.vdevs g'.vdevs
  con : g'.con = g.con
  user : g'.user = g.user
  lines : g'.lines = g.lines
  stsch : ∀ (rest : Guest) r1 addr, SameEnd (handleStsch r1 addr { rest with vdevs := g.vdevs })
    (handleStsch r1 addr { rest with vdevs := g'.vdevs })
  ssch : ∀ (rest : Guest) x r1 addr,
    Option.Rel SameEnd (handleSsch x r1 addr { rest with vdevs := g.vdevs })
      (handleSsch x r1 addr { rest with vdevs := g'.vdevs })
  insert : ∀ phy virt, datInsertPage phy virt g'.storage.dat = datInsertPage phy virt g.storage.dat
  printf : ∀ vdev sch err, conPrintf g'.printTs vdev sch err = conPrintf g.printTs vdev sch err

/-- Old devices agree in what `alloc_virt_dev` leaves. -/
def LeftVdev (old old' : VirtDevice) : Prop :=
  (∀ f ∈ pmcwLeft, f.2.get old'.pmcw = f.2.get old.pmcw) ∧ old'.scsw = old.scsw

/-- The value that `alloc_virt_dev` returns for the device at position `i`. -/
def vdevRet (env : ℕ → AllocEnv) (i : ℕ) (dirdev : DirVdev) : Int :=
  if (env i).malloc = false then -enomem else (setupVirtDev (env i).rdevs dirdev (vdevSch i)).1

/-- **The old storage agrees in what is looked at and not set before**: the two table
pointers, for each device on the list the SCSW and the members of the PMCW that are left,
and `print_ts` where an allocation fails and a line is printed. -/
structure LeftAlike (env : CreateEnv) (sys sys' : OldSys) (old old' : ℕ → VirtDevice) : Prop where
  region : sys'.regionTable = sys.regionTable
  segment : sys'.segmentTable = sys.segmentTable
  stamp : ∀ u user, env.user = some (u, user) → ∀ i dirdev, user.devices[i]? = some dirdev →
    vdevRet env.vdevs i dirdev ≠ 0 → (sys'.printTs = 0 ↔ sys.printTs = 0)
  vdev : ∀ u user, env.user = some (u, user) → ∀ i dirdev, user.devices[i]? = some dirdev →
    vdevRet env.vdevs i dirdev = 0 → LeftVdev (old i) (old' i)

section Devices

/-- A field that the code leaves unset has no bit of one it sets. -/
theorem pmcwLeft_disjoint : ∀ g ∈ pmcwLeft, ∀ f ∈ pmcwSet, g.2.Disjoint f.2 := by
  decide

/-- **Every bit of the PMCW is accounted for**: it is in a field that is set or in one that is
left. -/
theorem pmcw_cover : ∀ i < 224, (∃ f ∈ pmcwSet, f.2.Has i) ∨ ∃ g ∈ pmcwLeft, g.2.Has i := by
  decide +kernel

/-- The PMCW made for a device is the old one with the fields set from it. -/
theorem GuestDev.pmcw_eq (d : GuestDev) (pmcw : BitVec 224) :
    d.pmcw pmcw = copyFields pmcwSet (d.pmcw 0) pmcw := by
  simp (disch := decide) only [copyFields, pmcwSet, List.foldl_cons, List.foldl_nil, GuestDev.pmcw,
    Field.get_set_of_disjoint, Field.get_set]

/-- **What a device has from old storage.** -/
theorem store_same_iff (d : GuestDev) (v v' : VirtDevice) :
    SameVdev (d.store v) (d.store v') ↔ LeftVdev v v' := by
  have hpmcw : d.pmcw v'.pmcw = d.pmcw v.pmcw ↔
      ∀ f ∈ pmcwLeft, f.2.get v'.pmcw = f.2.get v.pmcw := by
    rw [d.pmcw_eq v'.pmcw, d.pmcw_eq v.pmcw]
    exact copyFields_eq_iff pmcwLeft_disjoint pmcw_cover _ _ _
  constructor
  · exact fun h => ⟨hpmcw.1 h.pmcw, h.scsw⟩
  · intro h
    refine ⟨rfl, rfl, hpmcw.2 h.1, h.2, fun hspool => ?_⟩
    have hspool' : d.vtype = .cons ∨ d.vtype = .spool := hspool
    simp only [GuestDev.store, if_pos hspool', and_self]

/-- What is set in the device at position `i`. -/
def vdevSet (env : ℕ → AllocEnv) (i : ℕ) (dirdev : DirVdev) : GuestDev :=
  (setupVirtDev (env i).rdevs dirdev (vdevSch i)).2.2

/-- The allocation of a device, split into what it returns and what it stores. -/
theorem allocVirtDevIn_eq (env : ℕ → AllocEnv) (v : VirtDevice) (i : ℕ) (dirdev : DirVdev) :
    allocVirtDevIn (env i) v dirdev (vdevSch i) = (vdevRet env i dirdev,
      if vdevRet env i dirdev = 0 then some ((vdevSet env i dirdev).store v) else none) := by
  unfold allocVirtDevIn vdevRet vdevSet
  by_cases hmalloc : (env i).malloc = false
  · rw [if_pos hmalloc, if_pos hmalloc]
    rfl
  · rw [if_neg hmalloc, if_neg hmalloc]

/-- A round of `alloc_guest_devices`. -/
theorem createVdevs_cons (env : ℕ → AllocEnv) (old : ℕ → VirtDevice) (printTs : BitVec 32) (i : ℕ)
    (cur : DirVdev) (devices : List DirVdev) :
    createVdevs env old printTs i (cur :: devices) =
      if vdevRet env i cur = 0 then
        ((vdevSet env i cur).store (old i) :: (createVdevs env old printTs (i + 1) devices).1,
          (createVdevs env old printTs (i + 1) devices).2)
      else ((createVdevs env old printTs (i + 1) devices).1,
        conPrintf printTs cur.vdev (vdevSch i) (-vdevRet env i cur) ::
          (createVdevs env old printTs (i + 1) devices).2) := by
  rw [createVdevs, allocVirtDevIn_eq]
  by_cases hret : vdevRet env i cur = 0
  · rw [if_pos hret, if_pos hret]
    dsimp only
    rw [if_neg (not_not.2 hret)]
    rfl
  · rw [if_neg hret, if_neg hret]
    dsimp only
    rw [if_pos hret]
    rfl

/-- A fact about the devices at `i` and behind it. -/
theorem forall_position {P : ℕ → DirVdev → Prop} {i : ℕ} {cur : DirVdev} {devices : List DirVdev} :
    (∀ k dirdev, (cur :: devices)[k]? = some dirdev → P (i + k) dirdev) ↔
      P i cur ∧ ∀ k dirdev, devices[k]? = some dirdev → P (i + 1 + k) dirdev := by
  constructor
  · refine fun h => ⟨h 0 cur rfl, fun k dirdev hk => ?_⟩
    rw [Nat.add_right_comm]
    exact h (k + 1) dirdev hk
  · rintro ⟨hfirst, hrest⟩ k dirdev hk
    cases k with
    | zero =>
      obtain rfl := Option.some.inj hk
      exact hfirst
    | succ k =>
      have hnext := hrest k dirdev hk
      rwa [Nat.add_right_comm] at hnext

/-- **The devices of two guests,** by induction on the devices of the directory. -/
theorem createVdevs_same_iff (env : ℕ → AllocEnv) (old old' : ℕ → VirtDevice)
    (printTs printTs' : BitVec 32) (i : ℕ) (devices : List DirVdev) :
    List.Forall₂ SameVdev (createVdevs env old printTs i devices).1
        (createVdevs env old' printTs' i devices).1 ↔
      ∀ k dirdev, devices[k]? = some dirdev →
        vdevRet env (i + k) dirdev = 0 → LeftVdev (old (i + k)) (old' (i + k)) := by
  induction devices generalizing i with
  | nil => exact iff_of_true .nil nofun
  | cons cur devices ih =>
    rw [forall_position (P := fun k dirdev =>
        vdevRet env k dirdev = 0 → LeftVdev (old k) (old' k)),
      createVdevs_cons, createVdevs_cons, ← ih (i + 1)]
    by_cases hret : vdevRet env i cur = 0
    · rw [if_pos hret, if_pos hret, List.forall₂_cons, store_same_iff]
      exact and_congr_left' ⟨fun h _ => h, fun h => h hret⟩
    · rw [if_neg hret, if_neg hret]
      exact (and_iff_right fun h => absurd h hret).symm

/-- **The messages.** -/
theorem createVdevs_lines_iff (env : ℕ → AllocEnv) (old old' : ℕ → VirtDevice)
    (printTs printTs' : BitVec 32) (i : ℕ) (devices : List DirVdev) :
    (createVdevs env old' printTs' i devices).2 = (createVdevs env old printTs i devices).2 ↔
      ∀ k dirdev, devices[k]? = some dirdev →
        vdevRet env (i + k) dirdev ≠ 0 → (printTs' = 0 ↔ printTs = 0) := by
  induction devices generalizing i with
  | nil => exact iff_of_true rfl nofun
  | cons cur devices ih =>
    rw [forall_position (P := fun k dirdev => vdevRet env k dirdev ≠ 0 →
        (printTs' = 0 ↔ printTs = 0)), createVdevs_cons, createVdevs_cons, ← ih (i + 1)]
    by_cases hret : vdevRet env i cur = 0
    · rw [if_pos hret, if_pos hret]
      exact (and_iff_right fun h => absurd hret h).symm
    · rw [if_neg hret, if_neg hret, List.cons.injEq, conPrintf, conPrintf, ConLine.mk.injEq]
      refine and_congr_left' ?_
      rw [forall_prop_of_true hret]
      simp only [and_true, ne_eq, decide_eq_decide, not_iff_not]

end Devices

/-! ### Storage -/

/-- The table pointers that are there are kept.  A segment table is allocated where there is
no table, and nowhere else. -/
structure KeepsTables (s t : Dat) : Prop where
  allocs : s.allocs ⊆ t.allocs
  region : t.regionTable = s.regionTable
  segment : t.segmentTable = s.segmentTable ∨
    s.regionTable = 0 ∧ s.segmentTable = 0 ∧ ∃ p, (2, p) ∈ t.allocs
  table : s.regionTable = 0 → s.segmentTable ≠ 0 → ∀ p, (2, p) ∈ t.allocs → (2, p) ∈ s.allocs

section Storage

variable {s t u : Dat} {segment page ptr order : ℕ} {virt phy : BitVec 64}

/-- A state keeps the tables of itself. -/
theorem KeepsTables.refl (s : Dat) : KeepsTables s s :=
  ⟨List.Subset.refl _, rfl, Or.inl rfl, fun _ _ _ h => h⟩

/-- Keeping the tables composes. -/
theorem KeepsTables.trans (h : KeepsTables s t) (h' : KeepsTables t u) : KeepsTables s u := by
  refine ⟨List.Subset.trans h.allocs h'.allocs, h'.region.trans h.region, ?_,
    fun hregion hsegment p hp => ?_⟩
  · rcases h.segment with hsegment | ⟨hregion, hsegment, p, hp⟩
    · rw [← hsegment, ← h.region]
      exact h'.segment
    · exact Or.inr ⟨hregion, hsegment, p, h'.allocs hp⟩
  · rcases h.segment with hkeep | ⟨-, hzero, -⟩
    · refine h.table hregion hsegment p (h'.table ?_ ?_ p hp)
      · rw [h.region, hregion]
      · rwa [hkeep]
    · exact absurd hzero hsegment

/-- An allocated table is put at the head of the list of blocks, and no table pointer changes.
-/
theorem allocTable_allocs (h : allocTable order s = some (ptr, t)) :
    t.allocs = (order, ptr) :: s.allocs ∧ t.regionTable = s.regionTable ∧
      t.segmentTable = s.segmentTable := by
  unfold allocTable at h
  split at h
  · obtain ⟨rfl, rfl⟩ := Prod.mk.inj (Option.some.inj h)
    exact ⟨rfl, rfl, rfl⟩
  · cases h

/-- A table of another order. -/
theorem allocTable_keeps (h : allocTable order s = some (ptr, t)) (horder : order ≠ 2) :
    KeepsTables s t := by
  obtain ⟨hallocs, hregion, hsegment⟩ := allocTable_allocs h
  refine ⟨?_, hregion, Or.inl hsegment, fun _ _ p hp => ?_⟩
  · rw [hallocs]
    exact List.subset_cons_self _ _
  · rw [hallocs] at hp
    exact List.mem_of_ne_of_mem (fun heq => horder (Prod.mk.inj heq).1.symm) hp

/-- Finding the segment table keeps a table that is there. -/
theorem findSegmentTable_keeps (h : findSegmentTable virt s = some (segment, t)) :
    KeepsTables s t := by
  unfold findSegmentTable at h
  split_ifs at h with hregion hsegment hrx hentry
  · obtain ⟨⟨p, s₁⟩, halloc, hres⟩ := Option.bind_eq_some_iff.1 h
    obtain ⟨rfl, rfl⟩ := Prod.mk.inj (Option.some.inj hres)
    obtain ⟨hallocs, hregion'⟩ := allocTable_allocs halloc
    refine ⟨?_, hregion'.1, Or.inr ⟨hregion, hsegment, p, ?_⟩, fun _ h => absurd hsegment h⟩
    · rw [hallocs]
      exact List.subset_cons_self _ _
    · rw [hallocs]
      exact List.mem_cons_self
  · obtain ⟨rfl, rfl⟩ := Prod.mk.inj (Option.some.inj h)
    exact .refl s
  · -- the region table has no use for the other pointer
    obtain ⟨⟨p, s₁⟩, halloc, hres⟩ := Option.bind_eq_some_iff.1 h
    obtain ⟨-, rfl⟩ := Prod.mk.inj (Option.some.inj hres)
    obtain ⟨hallocs, hregion', hsegment'⟩ := allocTable_allocs halloc
    refine ⟨?_, hregion', Or.inl hsegment', fun h => absurd h hregion⟩
    show s.allocs ⊆ s₁.allocs
    rw [hallocs]
    exact List.subset_cons_self _ _
  · obtain ⟨-, rfl⟩ := Prod.mk.inj (Option.some.inj h)
    exact .refl s

/-- Finding the page table keeps the tables that are there. -/
theorem findPageTable_keeps (h : findPageTable segment s = some (page, t)) : KeepsTables s t := by
  unfold findPageTable at h
  split at h
  · obtain ⟨⟨ptr, s₁⟩, halloc, hres⟩ := Option.bind_eq_some_iff.1 h
    obtain ⟨rfl, rfl⟩ := Prod.mk.inj (Option.some.inj hres)
    obtain ⟨hallocs, hregion, hsegment, htable⟩ := allocTable_keeps halloc (by decide)
    exact ⟨hallocs, hregion, hsegment, htable⟩
  · obtain ⟨rfl, rfl⟩ := Prod.mk.inj (Option.some.inj h)
    exact .refl s

/-- Mapping a page keeps the tables that are there. -/
theorem datInsertPage_keeps (h : datInsertPage phy virt s = some t) : KeepsTables s t := by
  obtain ⟨⟨segment, s₁⟩, hsegment, h⟩ := Option.bind_eq_some_iff.1 h
  obtain ⟨⟨page, s₂⟩, hpage, h⟩ := Option.bind_eq_some_iff.1 h
  obtain rfl := Option.some.inj h
  obtain ⟨hallocs, hregion, hsegment, htable⟩ :=
    (findSegmentTable_keeps hsegment).trans (findPageTable_keeps hpage)
  exact ⟨hallocs, hregion, hsegment, htable⟩

/-- A supply of pages touches no table. -/
theorem take_keeps (s : Dat) (p : ℕ) (supply : List (Option ℕ)) :
    KeepsTables s (s.take p supply) := by
  refine ⟨List.subset_cons_self _ _, rfl, Or.inl rfl, fun _ _ q hq => ?_⟩
  rcases List.mem_cons.1 hq with heq | hq
  · exact absurd (Prod.mk.inj heq).1 (by decide)
  · exact hq

/-- Filling a guest's storage keeps the tables it began with, over all its pages. -/
theorem fillGuestStorage_keeps {pages : ℕ} {g g' : GuestStorage} {ret : Int}
    (h : fillGuestStorage pages g = some (ret, g')) : KeepsTables g.dat g'.dat := by
  induction pages generalizing g with
  | zero =>
    obtain ⟨-, rfl⟩ := Prod.mk.inj (Option.some.inj h)
    exact .refl _
  | succ pages ih =>
    rcases fillGuestStorage_succ h with ⟨-, rfl⟩ | ⟨p, supply, dat, -, hins, hrest⟩
    · exact .refl _
    · exact ((take_keeps _ p supply).trans (datInsertPage_keeps hins)).trans (ih hrest)

/-- **The address space** is the same exactly if the old table pointers are. -/
theorem guestStorage_same_iff {env : CreateEnv} {sys sys' : OldSys} {pages : ℕ}
    {g g' : GuestStorage} (h : fillGuestStorage pages (sys.as env.mem env.pages) = some (0, g))
    (h' : fillGuestStorage pages (sys'.as env.mem env.pages) = some (0, g')) :
    g' = g ↔ sys'.regionTable = sys.regionTable ∧ sys'.segmentTable = sys.segmentTable := by
  have hkeeps := fillGuestStorage_keeps h
  have hkeeps' := fillGuestStorage_keeps h'
  constructor
  · rintro rfl
    have hregion : sys'.regionTable = sys.regionTable := hkeeps'.region.symm.trans hkeeps.region
    refine ⟨hregion, ?_⟩
    rcases hkeeps.segment with hsegment | ⟨hzero, hnone, p, hp⟩
    · rcases hkeeps'.segment with hsegment' | ⟨hzero', hnone', p, hp⟩
      · exact hsegment'.symm.trans hsegment
      · -- the other guest has the table, but it was not allocated for it
        by_contra hne
        refine absurd (hkeeps.table ?_ ?_ p hp) List.not_mem_nil
        · exact hregion.symm.trans hzero'
        · exact fun h => hne (Eq.trans hnone' h.symm)
    · by_contra hne
      refine absurd (hkeeps'.table ?_ ?_ p hp) List.not_mem_nil
      · exact hregion.trans hzero
      · exact fun h => hne (Eq.trans h hnone.symm)
  · rintro ⟨hregion, hsegment⟩
    rw [OldSys.as, hregion, hsegment, ← OldSys.as, h] at h'
    exact (Prod.mk.inj (Option.some.inj h')).2.symm

end Storage

/-! ### The system -/

/-- Every device with a spool file has the commands of the console or none. -/
theorem createVdevs_known (env : ℕ → AllocEnv) (old : ℕ → VirtDevice) (printTs : BitVec 32) (i : ℕ)
    (devices : List DirVdev) : VdevsKnown (createVdevs env old printTs i devices).1 := by
  induction devices generalizing i with
  | nil => exact nofun
  | cons cur devices ih =>
    rw [createVdevs_cons]
    by_cases hret : vdevRet env i cur = 0
    · rw [if_pos hret]
      rintro v hv hspool
      rcases List.mem_cons.1 hv with rfl | hv
      · have hspool' : (vdevSet env i cur).vtype = .cons ∨ (vdevSet env i cur).vtype = .spool :=
          hspool
        simp only [GuestDev.store, if_pos hspool']
        cases (vdevSet env i cur).consOps with
        | true => exact Or.inr rfl
        | false => exact Or.inl rfl
      · exact ih (i + 1) v hv hspool
    · rw [if_neg hret]
      exact ih (i + 1)

/-- A call of `guest_create` that returns a guest. -/
theorem guestCreate_ok {env : CreateEnv} {sys : OldSys} {old : ℕ → VirtDevice} {g : NewSys}
    (h : guestCreate env sys old = .ok g) :
    ∃ con u user storage, allocConsole env = some con ∧ env.user = some (u, user) ∧
      fillGuestStorage (user.storageSize >>> pageShift).toNat (sys.as env.mem env.pages) =
        some (0, storage) ∧
      g = ⟨con, u, (createVdevs env.vdevs old sys.printTs 0 user.devices).1,
        (createVdevs env.vdevs old sys.printTs 0 user.devices).2, storage, 1⟩ := by
  unfold guestCreate at h
  split at h
  · cases h
  split at h
  · cases h
  split at h
  case h_1 => cases h
  case h_2 => cases h
  case h_3 con u user hcon huser =>
    dsimp only at h
    split at h
    case h_2 => cases h
    case h_1 storage hfill =>
      split_ifs at h
      exact ⟨con, u, user, storage, hcon, huser, hfill, (Except.ok.inj h).symm⟩

/-- **When two new guests are the same,** whatever `malloc` returned: exactly if the old
storage agrees in the table pointers, in what `alloc_virt_dev` leaves of each device that it
puts on the list, and, if a device is not allocated, in whether there are time stamps. -/
theorem guestCreate_same_iff {env : CreateEnv} {sys sys' : OldSys} {old old' : ℕ → VirtDevice}
    {g g' : NewSys} (h : guestCreate env sys old = .ok g)
    (h' : guestCreate env sys' old' = .ok g') :
    SameSys g g' ↔ LeftAlike env sys sys' old old' := by
  obtain ⟨con, u, user, storage, hcon, huser, hfill, rfl⟩ := guestCreate_ok h
  obtain ⟨con', u', user', storage', hcon', huser', hfill', rfl⟩ := guestCreate_ok h'
  obtain rfl : con = con' := Option.some.inj (hcon.symm.trans hcon')
  obtain ⟨rfl, rfl⟩ := Prod.mk.inj (Option.some.inj (huser.symm.trans huser'))
  have hstorage := guestStorage_same_iff hfill hfill'
  have hvdevs := createVdevs_same_iff env.vdevs old old' sys.printTs sys'.printTs 0 user.devices
  have hlines := createVdevs_lines_iff env.vdevs old old' sys.printTs sys'.printTs 0 user.devices
  simp only [Nat.zero_add] at hvdevs hlines
  constructor
  · intro hsame
    obtain ⟨hregion, hsegment⟩ := hstorage.1 hsame.storage
    refine ⟨hregion, hsegment, fun v w hvw i dirdev hi hret => ?_,
      fun v w hvw i dirdev hi hret => ?_⟩
    · obtain ⟨rfl, rfl⟩ := Prod.mk.inj (Option.some.inj (huser.symm.trans hvw))
      exact hlines.1 hsame.lines i dirdev hi hret
    · obtain ⟨rfl, rfl⟩ := Prod.mk.inj (Option.some.inj (huser.symm.trans hvw))
      exact hvdevs.1 hsame.vdevs i dirdev hi hret
  · intro hleft
    have hsame := hvdevs.2 (hleft.vdev u user huser)
    have hknown := createVdevs_known env.vdevs old sys.printTs 0 user.devices
    obtain rfl := hstorage.2 ⟨hleft.region, hleft.segment⟩
    exact {
      storage := rfl
      vdevs := hsame
      con := rfl
      user := rfl
      lines := hlines.2 (hleft.stamp u user huser)
      stsch := fun rest => handleStsch_reads ⟨_, hsame, rfl⟩
      ssch := fun rest x => handleSsch_reads ⟨_, hsame, rfl⟩ hknown
      insert := fun _ _ => rfl
      printf := fun _ _ _ => rfl }

/-- BOB, with one page and a console, while nobody is online. -/
def bobEnv : CreateEnv where
  online := []
  directory := [⟨[0x42, 0x4f, 0x42], 0x1000, [⟨.cons, 9, 0, 0, 0⟩]⟩]
  name := [0x42, 0x4f, 0x42]
  rcon := 0
  sys := true
  wlines := some 0x10000
  rlines := some 0x10080
  bigbuf := some 0x11000
  vdevs _ := ⟨true, []⟩
  mem _ := 0
  pages := [some 32, some 36, some 40]
  vcpu := true

/-- Storage with zeros, where a device goes. -/
def zeroVdev : VirtDevice := ⟨.inval, 0, none, none, 0, 0, 0, 0⟩

/-- Two runs in which the members that are set have other old values, and those that are not
set the same: they make the same guest. -/
theorem guestCreate_same_bob : ∃ g g', guestCreate bobEnv ⟨0, 0, 0⟩ (fun _ => zeroVdev) = .ok g ∧
    guestCreate bobEnv ⟨0, 0, 7⟩ (fun _ => { zeroVdev with pmcw := pmcwDevNum.set 5 0 }) = .ok g' ∧
    SameSys g g' := by
  have h : guestCreate bobEnv ⟨0, 0, 0⟩ (fun _ => zeroVdev) = .ok _ := rfl
  have h' : guestCreate bobEnv ⟨0, 0, 7⟩ (fun _ => { zeroVdev with pmcw := pmcwDevNum.set 5 0 }) =
    .ok _ := rfl
  have hdevices : ∀ u user, bobEnv.user = some (u, user) →
      user.devices = [⟨.cons, 9, 0, 0, 0⟩] := by
    intro u user huser
    obtain ⟨-, rfl⟩ := Prod.mk.inj (Option.some.inj huser)
    rfl
  refine ⟨_, _, h, h', (guestCreate_same_iff h h').2 ⟨rfl, rfl, ?_, ?_⟩⟩
  · intro u user huser i dirdev hi hret
    rw [hdevices u user huser] at hi
    cases i with
    | zero =>
      obtain rfl := Option.some.inj hi
      exact absurd rfl hret
    | succ i => cases hi
  · exact fun u user huser i dirdev hi hret => ⟨by decide, rfl⟩

/-- A device that was status pending in storage is so again: the SCSW of a new `virt_device`
is not set. -/
theorem not_guestCreate_same : ∃ g g',
    guestCreate bobEnv ⟨0, 0, 0⟩ (fun _ => zeroVdev) = .ok g ∧
    guestCreate bobEnv ⟨0, 0, 0⟩ (fun _ => { zeroVdev with scsw := scswSc.set scStatus 0 }) =
      .ok g' ∧ ¬ SameSys g g' := by
  refine ⟨_, _, rfl, rfl, fun h => ?_⟩
  cases h.vdevs with
  | cons hvdev _ =>
    have hscsw : scswSc.set scStatus 0 = (0 : BitVec 96) := hvdev.scsw
    exact absurd hscsw (by decide)

end Hvf
