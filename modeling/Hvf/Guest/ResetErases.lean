/-
# What a clearing reset erases

`guest_system_reset_clear`, `guest_load_clear` and `guest_power_on_reset` are to leave
two guests that differ in nothing that a program can see, whatever they were doing
before.  They leave registers 14 and 15 of the guest, which are in the SIE control
block, the queues of pending I/O interruptions, and the bits of a PMCW that have no
member: the memory of a device is not cleared when it is allocated.
-/

import Hvf.Guest.Reset

namespace Hvf

open BitField

/-- The byte at the guest address `a`. -/
def VirtSys.guestByte (s : VirtSys) (a : ℕ) : Option UInt8 :=
  (virt2phyCurrent s.as.frames a).map s.mem

/-- **The two devices were made from one entry of a directory**: they have the same type,
subchannel and device number, and agree in whether the subchannel is valid. -/
structure SameDevice (v w : VirtDevice) : Prop where
  vtype : v.vtype = w.vtype
  sch : v.sch = w.sch
  valid : pmcwV.get v.pmcw = pmcwV.get w.pmcw
  devNum : pmcwDevNum.get v.pmcw = pmcwDevNum.get w.pmcw

/-- **Two guests with the same directory entry** and the same list of devices; what they
have done since is left open. -/
structure SameGuest (s t : VirtSys) : Prop where
  storageSize : s.storageSize = t.storageSize
  pages : ∀ v, (s.as.frames v).isSome = (t.as.frames v).isSome
  vdevs : List.Forall₂ SameDevice s.vdevs t.vdevs

/-- A guest program and the delivery of interruptions find nothing by which to tell the
two guests apart, and no interruption is pending. -/
structure Erased (s t : VirtSys) : Prop where
  gpsw : ∀ k < 16, s.sie.gpsw k = t.sie.gpsw k
  prefixReg : s.sie.prefixReg = t.sie.prefixReg
  gcr : s.sie.gcr = t.sie.gcr
  gpr : ∀ r, s.seen r = t.seen r
  saved : s.regs.gpr = t.regs.gpr
  ar : s.regs.ar = t.regs.ar
  fpr : ∀ i, i.val < 16 → s.regs.fpr i = t.regs.fpr i
  fpcr : s.regs.fpcr = t.regs.fpcr
  subchannels : List.Forall₂ (fun v w => v.pmcw = w.pmcw ∧ v.scsw = w.scsw) s.vdevs t.vdevs
  storage : ∀ a, s.guestByte a = t.guestByte a
  noneLeft : ∀ isc, s.intIo isc = [] ∧ t.intIo isc = []

/-- The resets that clear. -/
def clearingResets : List (VirtSys → VirtSys) :=
  [guestSystemResetClear, guestLoadClear, guestPowerOnReset]

/-- **The bits of the two PMCWs without a member are the same**, `__zero1` to `__zero4`,
which no reset clears. -/
structure SameReserved (v w : VirtDevice) : Prop where
  zero1 : pmcwZero1.get v.pmcw = pmcwZero1.get w.pmcw
  zero2 : pmcwZero2.get v.pmcw = pmcwZero2.get w.pmcw
  zero3 : pmcwZero3.get v.pmcw = pmcwZero3.get w.pmcw
  zero4 : pmcwZero4.get v.pmcw = pmcwZero4.get w.pmcw

/-- **Nothing is pending in either guest**, and what the resets leave is the same: the two
registers in the SIE block, and the reserved bits of the PMCWs. -/
structure NothingLeft (s t : VirtSys) : Prop where
  noneLeft : ∀ isc, s.intIo isc = [] ∧ t.intIo isc = []
  gg14 : s.sie.gg14 = t.sie.gg14
  gg15 : s.sie.gg15 = t.sie.gg15
  reserved : List.Forall₂ SameReserved s.vdevs t.vdevs

/-! ### Path management control words -/

/-- The bits of a PMCW that a reset leaves. -/
def pmcwKept : BitVec 224 :=
  pmcwV.mask ||| (pmcwDevNum.mask ||| (pmcwZero1.mask ||| (pmcwZero2.mask |||
    (pmcwZero3.mask ||| pmcwZero4.mask))))

/-- A reset PMCW is the bits that are kept, and for the rest what a PMCW of zeros is reset to.
-/
theorem resetPmcw_eq (pmcw : BitVec 224) :
    resetPmcw pmcw = (pmcw &&& pmcwKept) ||| resetPmcw 0 := by
  simp only [resetPmcw, List.finRange, Field.set]
  simp only [List.ofFn, Fin.foldr, Fin.foldr.loop, List.foldl_cons, List.foldl_nil, and_or_and_or]
  congr 1

/-- What a reset leaves of a PMCW shows. -/
theorem resetPmcw_kept (pmcw : BitVec 224) : resetPmcw pmcw &&& pmcwKept = pmcw &&& pmcwKept := by
  have hapart : resetPmcw 0 &&& pmcwKept = 0 := by decide +kernel
  have hmerged := and_or_and_or pmcw pmcwKept (resetPmcw 0) pmcwKept 0
  rw [hapart, BitVec.and_self] at hmerged
  rw [resetPmcw_eq]
  simpa using hmerged

/-- **Two PMCWs are the same after a reset** exactly when the device numbers and the
bits without a member were. -/
theorem resetPmcw_eq_iff {v w : VirtDevice} (hsame : SameDevice v w) :
    resetPmcw v.pmcw = resetPmcw w.pmcw ↔ SameReserved v w := by
  have hkept : resetPmcw v.pmcw = resetPmcw w.pmcw ↔ v.pmcw &&& pmcwKept = w.pmcw &&& pmcwKept := by
    constructor
    · intro h
      rw [← resetPmcw_kept, h, resetPmcw_kept]
    · intro h
      rw [resetPmcw_eq, h, ← resetPmcw_eq]
  rw [hkept, pmcwKept]
  simp only [and_or_eq_iff, ← Field.get_eq_get_iff]
  constructor
  · rintro ⟨-, -, h₁, h₂, h₃, h₄⟩
    exact ⟨h₁, h₂, h₃, h₄⟩
  · intro h
    exact ⟨hsame.valid, hsame.devNum, h.zero1, h.zero2, h.zero3, h.zero4⟩

/-! ### Storage -/

/-- The guest's pages after a clearing reset. -/
def clearPages (pages : List ℕ) (mem : ℕ → UInt8) : ℕ → UInt8 :=
  pages.foldl (fun mem p => memsetZero (p * pageSize) pageSize mem) mem

/-- Clearing pages leaves a zero byte zero. -/
theorem clearPages_keeps_zero {a : ℕ} (pages : List ℕ) {mem : ℕ → UInt8} (h : mem a = 0) :
    clearPages pages mem a = 0 := by
  induction pages generalizing mem with
  | nil => exact h
  | cons p pages ih =>
    refine ih ?_
    show memsetZero (p * pageSize) pageSize mem a = 0
    unfold memsetZero
    split_ifs
    · rfl
    · exact h

/-- **Every byte of a page in the list is zero.** -/
theorem clearPages_zero {p k : ℕ} (hk : k < pageSize) {pages : List ℕ} (hp : p ∈ pages)
    (mem : ℕ → UInt8) : clearPages pages mem (p * pageSize + k) = 0 := by
  induction pages generalizing mem with
  | nil => exact absurd hp List.not_mem_nil
  | cons q pages ih =>
    rcases List.mem_cons.1 hp with rfl | hp
    · refine clearPages_keeps_zero pages ?_
      exact if_pos ⟨Nat.le_add_right _ _, by omega⟩
    · exact ih hp _

/-! ### The three resets -/

/-- The guest after a clearing reset. -/
def VirtSys.cleared (s : VirtSys) : VirtSys where
  sie := { s.sie with gpsw := memsetZero 0 16 s.sie.gpsw, prefixReg := 0, gcr := resetGcr }
  regs := { gpr := fun _ => 0, ar := fun _ => 0, fpcr := 0
            fpr := fun i => if i.val < 16 then 0 else s.regs.fpr i }
  state := .stopped
  intIo := s.intIo
  vdevs := s.vdevs.map fun vdev => { vdev with pmcw := resetPmcw vdev.pmcw, scsw := 0 }
  as := s.as
  storageSize := s.storageSize
  mem := clearPages s.as.guestPages s.mem

/-- The clearing resets differ only in items that HVF does not have. -/
theorem clearingReset_eq {reset : VirtSys → VirtSys} (h : reset ∈ clearingResets) (s : VirtSys) :
    reset s = s.cleared := by
  simp only [clearingResets, List.mem_cons, List.not_mem_nil, or_false] at h
  rcases h with rfl | rfl | rfl
  · rfl
  · rfl
  · rfl

variable {s t : VirtSys}

/-- Guest storage is zero after a clearing reset. -/
theorem guestByte_cleared (s : VirtSys) (a : ℕ) :
    s.cleared.guestByte a = (s.as.frames (a / pageSize)).map fun _ => 0 := by
  unfold VirtSys.guestByte virt2phyCurrent
  change ((s.as.frames (a / pageSize)).map _).map (clearPages s.as.guestPages s.mem) = _
  cases hframe : s.as.frames (a / pageSize) with
  | none => rfl
  | some frame =>
    have hmem := s.as.owned _ _ hframe
    exact congrArg some (clearPages_zero (Nat.mod_lt _ (by decide)) hmem s.mem)

/-- Cleared subchannels look the same exactly when the kept parts of their PMCWs do. -/
theorem cleared_subchannels_iff {vs ws : List VirtDevice} (h : List.Forall₂ SameDevice vs ws) :
    List.Forall₂ (fun v w => v.pmcw = w.pmcw ∧ v.scsw = w.scsw)
        (vs.map fun vdev => { vdev with pmcw := resetPmcw vdev.pmcw, scsw := 0 })
        (ws.map fun vdev => { vdev with pmcw := resetPmcw vdev.pmcw, scsw := 0 }) ↔
      List.Forall₂ SameReserved vs ws := by
  induction h with
  | nil => exact iff_of_true List.Forall₂.nil List.Forall₂.nil
  | cons hsame _ ih =>
    rw [List.map_cons, List.map_cons, List.forall₂_cons, List.forall₂_cons, ih]
    exact and_congr_left fun _ => (and_iff_left rfl).trans (resetPmcw_eq_iff hsame)

/-- **Exactly when a clear reset erases history.**  After a clearing reset two guests
with one directory entry and one list of devices are the same to their programs, with
no interruption pending, exactly when no interruption was pending in either before and
registers 14 and 15 and the bits without a member in the PMCWs were the same. -/
theorem clearingReset_erases_iff {reset : VirtSys → VirtSys} (hreset : reset ∈ clearingResets)
    (hsame : SameGuest s t) : Erased (reset s) (reset t) ↔ NothingLeft s t := by
  rw [clearingReset_eq hreset, clearingReset_eq hreset]
  constructor
  · intro h
    exact ⟨h.noneLeft, h.gpr 14, h.gpr 15, (cleared_subchannels_iff hsame.vdevs).1 h.subchannels⟩
  · intro h
    refine
      { gpsw := fun k hk => ?_
        prefixReg := rfl
        gcr := rfl
        gpr := fun r => ?_
        saved := rfl
        ar := rfl
        fpr := fun i hi => ?_
        fpcr := rfl
        subchannels := (cleared_subchannels_iff hsame.vdevs).2 h.reserved
        storage := fun a => ?_
        noneLeft := h.noneLeft }
    · have hin : 0 ≤ k ∧ k < 0 + 16 := ⟨Nat.zero_le k, by omega⟩
      exact (if_pos hin).trans (if_pos hin).symm
    · unfold VirtSys.seen
      split_ifs
      · exact h.gg14
      · exact h.gg15
      · rfl
    · exact (if_pos hi).trans (if_pos hi).symm
    · rw [guestByte_cleared, guestByte_cleared]
      have hpages := hsame.pages (a / pageSize)
      cases hs : s.as.frames (a / pageSize) with
      | none => simp_all
      | some p =>
        obtain ⟨q, hq⟩ := Option.isSome_iff_exists.1 (hpages.symm.trans (by rw [hs]; rfl))
        rw [hq]
        rfl

/-! ### Two guests -/

/-- The same guest after it has used storage, the registers below 14 and the console. -/
def usedGuest : VirtSys :=
  { newGuest with
    regs := ⟨fun r => if r < 14 then 7 else 0, fun _ => 7, fun _ => 7, 7⟩
    vdevs := [console (pmcwIsc.set 3 (pmcwE.set 1 (pmcwV.set 1 0))) (scswSc.set scStatus 0)]
    mem := fun _ => 0xff }

/-- The used guest of the example and the new one are the same configuration. -/
theorem usedGuest_same : SameGuest usedGuest newGuest where
  storageSize := rfl
  pages _ := rfl
  vdevs := .cons ⟨rfl, rfl, by decide +kernel, by decide +kernel⟩ .nil

/-- The clear reset erases what the used guest of the example had done: behind it the guest
is like a new one. -/
theorem clearingReset_erases_used :
    SameGuest usedGuest newGuest ∧
      Erased (guestSystemResetClear usedGuest) (guestSystemResetClear newGuest) := by
  have hnothing : NothingLeft usedGuest newGuest :=
    ⟨fun _ => ⟨rfl, rfl⟩, rfl, rfl, .cons
      ⟨by decide +kernel, by decide +kernel, by decide +kernel, by decide +kernel⟩ .nil⟩
  exact ⟨usedGuest_same,
    (clearingReset_erases_iff (List.mem_cons_self ..) usedGuest_same).2 hnothing⟩

/-- The new guest with an interruption of its console pending. -/
def pendingGuest : VirtSys :=
  { newGuest with
    intIo := Function.update (fun _ => []) 3 [⟨0x10000, 0, 0x18000000⟩] }

/-- An interruption that is pending survives the reset: the branch for the floating
interruptions is empty. -/
theorem not_clearingReset_erases : SameGuest pendingGuest newGuest ∧
    ¬ Erased (guestSystemResetClear pendingGuest) (guestSystemResetClear newGuest) := by
  have hsame : SameGuest pendingGuest newGuest :=
    ⟨rfl, fun _ => rfl, .cons ⟨rfl, rfl, rfl, rfl⟩ .nil⟩
  refine ⟨hsame, fun h => ?_⟩
  have hqueue : pendingGuest.intIo 3 = [] := (h.noneLeft 3).1
  exact absurd hqueue (by decide +kernel)

end Hvf
