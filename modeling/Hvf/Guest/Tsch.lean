/-
# What TSCH delivers

`handle_tsch` of `cp/guest/instruction_priv.c` takes a copy of the SCSW into an IRB,
clears the status, sets the condition code and returns: the IRB is stored nowhere.
`handle_stsch`, which is alike, stores its SCHIB with `memcpy_to_guest`.

The status is cleared as it should be (`tschScsw_rules`), and the guest gets it exactly
if its storage holds the IRB before the instruction (`tsch_delivers_iff`).
-/

import Hvf.Guest.InstructionPriv

namespace Hvf

open BitField

/-- `sizeof(struct irb)`. -/
def irbSize : ℕ := 96

/-- Byte `i` of an IRB with the SCSW and nothing else. -/
def irbByte (scsw : BitVec 96) (i : ℕ) : UInt8 := if i < 12 then toBytes scsw i else 0

/-! ### The rules for the status -/

/-- The status is intermediate. -/
def Intermediate (scsw : BitVec 96) : Prop := scswSc.get scsw &&& scIntermed ≠ 0

/-- The subchannel is suspended. -/
def Suspended (scsw : BitVec 96) : Prop := scswAc.get scsw &&& acSusp ≠ 0

/-- The function control has a function. -/
def HasFunction (fc : BitVec 3) (scsw : BitVec 96) : Prop := scswFc.get scsw &&& fc ≠ 0

/-- Whether the status is intermediate is decided from the status word. -/
instance (scsw : BitVec 96) : Decidable (Intermediate scsw) := inferInstanceAs (Decidable (_ ≠ _))

/-- Whether the program is suspended is decided from the status word. -/
instance (scsw : BitVec 96) : Decidable (Suspended scsw) := inferInstanceAs (Decidable (_ ≠ _))

/-- Whether a function is under way is decided from the status word. -/
instance (fc : BitVec 3) (scsw : BitVec 96) : Decidable (HasFunction fc scsw) :=
  inferInstanceAs (Decidable (_ ≠ _))

/-- What taking a pending status leaves of the SCSW: the functions, what was pending of
them, and the status itself are cleared, as far as the status says that they are over. -/
structure StatusTaken (scsw scsw' : BitVec 96) : Prop where
  functions : scswFc.get scsw' =
    if ¬ Intermediate scsw ∨ HasFunction fcHalt scsw ∧ Suspended scsw then 0
    else scswFc.get scsw
  resume : scswAc.get scsw' &&& acResume =
    if ¬ Intermediate scsw ∨ Suspended scsw ∧ HasFunction fcStart scsw then 0
    else scswAc.get scsw &&& acResume
  pending : scswAc.get scsw' &&& (acStart ||| acHalt ||| acClear) =
    if ¬ Intermediate scsw ∨
      Suspended scsw ∧ HasFunction fcStart scsw ∧ HasFunction fcHalt scsw then 0
    else scswAc.get scsw &&& (acStart ||| acHalt ||| acClear)
  active : scswAc.get scsw' &&& (acSchAct ||| acDevAct ||| acSusp) =
    scswAc.get scsw &&& (acSchAct ||| acDevAct ||| acSusp)
  status : scswSc.get scsw' = scswSc.get scsw &&& ~~~scStatus
  frame : ∀ i, i < 64 ∨ 79 ≤ i → scsw'.getLsbD i = scsw.getLsbD i

/-- Clears of the activity control, and what they leave. -/
theorem acClears : ∀ ac : BitVec 7,
    (ac &&& ~~~(acResume ||| acStart ||| acHalt ||| acClear)) &&& acResume = 0 ∧
    (ac &&& ~~~(acResume ||| acStart ||| acHalt ||| acClear)) &&& (acStart ||| acHalt ||| acClear)
      = 0 ∧
    (ac &&& ~~~(acResume ||| acStart ||| acHalt ||| acClear)) &&&
      (acSchAct ||| acDevAct ||| acSusp) = ac &&& (acSchAct ||| acDevAct ||| acSusp) ∧
    (ac &&& ~~~acResume) &&& acResume = 0 ∧
    (ac &&& ~~~acResume) &&& (acStart ||| acHalt ||| acClear)
      = ac &&& (acStart ||| acHalt ||| acClear) ∧
    (ac &&& ~~~acResume) &&& (acSchAct ||| acDevAct ||| acSusp)
      = ac &&& (acSchAct ||| acDevAct ||| acSusp) := by
  decide

/-- The activity control that TSCH leaves. -/
theorem scswAc_tschScsw (scsw : BitVec 96) : scswAc.get (tschScsw scsw) =
    if ¬ Intermediate scsw ∨
        Suspended scsw ∧ HasFunction fcStart scsw ∧ HasFunction fcHalt scsw then
      scswAc.get scsw &&& ~~~(acResume ||| acStart ||| acHalt ||| acClear)
    else if Suspended scsw ∧ HasFunction fcStart scsw then scswAc.get scsw &&& ~~~acResume
    else scswAc.get scsw := by
  have hac : scswAc.get (tschScsw scsw) =
      if scswSc.get scsw &&& scIntermed = 0 then
        scswAc.get scsw &&& ~~~(acResume ||| acStart ||| acHalt ||| acClear)
      else if Suspended scsw ∧ HasFunction fcStart scsw then
        if HasFunction fcHalt scsw then
          scswAc.get scsw &&& ~~~(acResume ||| acStart ||| acHalt ||| acClear)
        else scswAc.get scsw &&& ~~~acResume
      else scswAc.get scsw := by
    simp (disch := decide) only [tschScsw, Field.get_set_of_disjoint, Field.get_set]
    rfl
  rw [hac]
  by_cases hinter : scswSc.get scsw &&& scIntermed = 0
  · rw [if_pos hinter, if_pos (Or.inl fun h => h hinter)]
  · have hno : ¬ ¬ Intermediate scsw := not_not.2 hinter
    rw [if_neg hinter]
    by_cases hsusp : Suspended scsw ∧ HasFunction fcStart scsw
    · rw [if_pos hsusp]
      by_cases hhalt : HasFunction fcHalt scsw
      · rw [if_pos hhalt, if_pos (Or.inr ⟨hsusp.1, hsusp.2, hhalt⟩)]
      · rw [if_neg hhalt, if_neg (not_or.2 ⟨hno, fun h => hhalt h.2.2⟩), if_pos hsusp]
    · rw [if_neg hsusp, if_neg (not_or.2 ⟨hno, fun h => hsusp ⟨h.1, h.2.1⟩⟩), if_neg hsusp]

/-- **The status is taken by the rules.** -/
theorem tschScsw_rules (scsw : BitVec 96) : StatusTaken scsw (tschScsw scsw) := by
  obtain ⟨hres, hpend, hact, hres', hpend', hact'⟩ := acClears (scswAc.get scsw)
  constructor
  case functions =>
    simp (disch := decide) only [tschScsw, Field.get_set_of_disjoint, Field.get_set, Intermediate,
      Suspended, HasFunction, ne_eq, not_not]
  case resume =>
    rw [scswAc_tschScsw]
    by_cases hall : ¬ Intermediate scsw ∨
        Suspended scsw ∧ HasFunction fcStart scsw ∧ HasFunction fcHalt scsw
    · rw [if_pos hall, hres, if_pos (hall.imp_right fun h => ⟨h.1, h.2.1⟩)]
    · obtain ⟨hno, -⟩ := not_or.1 hall
      rw [if_neg hall]
      by_cases hsusp : Suspended scsw ∧ HasFunction fcStart scsw
      · rw [if_pos hsusp, hres', if_pos (Or.inr hsusp)]
      · rw [if_neg hsusp, if_neg (not_or.2 ⟨hno, hsusp⟩)]
  case pending =>
    rw [scswAc_tschScsw]
    by_cases hall : ¬ Intermediate scsw ∨
        Suspended scsw ∧ HasFunction fcStart scsw ∧ HasFunction fcHalt scsw
    · rw [if_pos hall, hpend, if_pos hall]
    · rw [if_neg hall, if_neg hall]
      split_ifs
      · exact hpend'
      · rfl
  case active =>
    rw [scswAc_tschScsw]
    split_ifs
    · exact hact
    · exact hact'
    · rfl
  case status => rw [tschScsw, Field.get_set]
  case frame =>
    intro i hi
    have hsc : ¬ (scswSc.lo ≤ i ∧ i < scswSc.lo + 5) := by
      show ¬ (64 ≤ i ∧ i < 64 + 5)
      omega
    have hac : ¬ (scswAc.lo ≤ i ∧ i < scswAc.lo + 7) := by
      show ¬ (69 ≤ i ∧ i < 69 + 7)
      omega
    have hfc : ¬ (scswFc.lo ≤ i ∧ i < scswFc.lo + 3) := by
      show ¬ (76 ≤ i ∧ i < 76 + 3)
      omega
    rw [tschScsw, Field.getLsbD_set, if_neg hsc, Field.getLsbD_set, if_neg hac,
      Field.getLsbD_set, if_neg hfc]

/-! ### What the instruction should do -/

/-- Every byte of the operand is in a page that is mapped. -/
def Storable (g : Guest) (addr : BitVec 64) : Prop :=
  ∀ i < irbSize, virt2phyCurrent g.frames (addr.toNat + i) ≠ none

/-- Guest storage at the operand has the IRB. -/
def HoldsIrb (g : Guest) (addr : BitVec 64) (mem : ℕ → UInt8) (scsw : BitVec 96) : Prop :=
  ∀ i < irbSize, ∀ a, virt2phyCurrent g.frames (addr.toNat + i) = some a → mem a = irbByte scsw i

/-- The guest gets the SCSW of the device as it was, and nothing else changes but a status
that was pending, which is taken. -/
structure IrbDelivered (addr : BitVec 64) (vdev : VirtDevice) (g g' : Guest) : Prop where
  irb : HoldsIrb g addr g'.mem vdev.scsw
  frame : ∀ a, (∀ i < irbSize, virt2phyCurrent g.frames (addr.toNat + i) ≠ some a) →
    g'.mem a = g.mem a
  status : ∃ scsw, (if StatusPending vdev then StatusTaken vdev.scsw scsw else scsw = vdev.scsw) ∧
    g'.vdevs = setVdev g.vdevs { vdev with scsw }
  cc : g'.cc = if StatusPending vdev then 0 else 1

/-- An operand that can be stored is, and one that cannot be is an addressing exception,
which stops the CPU and leaves the subchannels as they are. -/
structure TschDelivers (r1 addr : BitVec 64) (g : Guest) : Prop where
  stored : ∀ vdev, vdevOperand r1 addr g = .ok vdev → Storable g addr →
    IrbDelivered addr vdev g (handleTsch r1 addr g).2
  refused : ∀ vdev, vdevOperand r1 addr g = .ok vdev → ¬ Storable g addr →
    (handleTsch r1 addr g).2.stopped = true ∧ (handleTsch r1 addr g).2.vdevs = g.vdevs

/-! ### What it does -/

variable {r1 addr : BitVec 64} {g : Guest} {vdev : VirtDevice}

/-- The device that was found, stored again. -/
theorem setVdev_found {vdevs : List VirtDevice} {sch : BitVec 32}
    (h : findVdev vdevs sch = some vdev) : setVdev vdevs vdev = vdevs := by
  have hfound := List.find?_some (p := fun v : VirtDevice => decide (v.sch = sch)) h
  have hsch : vdev.sch = sch := of_decide_eq_true hfound
  induction vdevs with
  | nil => rfl
  | cons v vdevs ih =>
    rw [findVdev, List.find?_cons] at h
    rw [setVdev]
    by_cases hv : v.sch = sch
    · rw [decide_eq_true hv] at h
      rw [if_pos (hv.trans hsch.symm), Option.some.inj h]
    · rw [decide_eq_false hv] at h
      rw [if_neg fun heq => hv (heq.trans hsch), ih h]

/-- An operand that names a device names the one of that subchannel. -/
theorem vdevOperand_find (h : vdevOperand r1 addr g = .ok vdev) :
    findVdev g.vdevs (r1.setWidth 32) = some vdev := by
  unfold vdevOperand at h
  split_ifs at h
  split at h
  · exact nomatch h
  case h_2 vdev' hfind =>
    obtain rfl := Except.ok.inj h
    exact hfind

/-- **The SCSW is changed as it should be,** and neither storage nor anything else. -/
theorem handleTsch_status (h : vdevOperand r1 addr g = .ok vdev) :
    ∃ scsw, (if StatusPending vdev then StatusTaken vdev.scsw scsw else scsw = vdev.scsw) ∧
      handleTsch r1 addr g = (0, { g with
        vdevs := setVdev g.vdevs { vdev with scsw }
        cc := if StatusPending vdev then 0 else 1 }) := by
  unfold handleTsch
  rw [h]
  by_cases hpending : StatusPending vdev
  · refine ⟨tschScsw vdev.scsw, ?_, ?_⟩
    · rw [if_pos hpending]
      exact tschScsw_rules vdev.scsw
    · dsimp only
      rw [if_pos hpending, if_pos hpending]
  · refine ⟨vdev.scsw, ?_, ?_⟩
    · rw [if_neg hpending]
    · dsimp only
      rw [if_neg hpending, if_neg hpending, setVdev_found (vdevOperand_find h)]

/-- **TSCH delivers the status exactly when** the operand is refused, or can be stored and
has the IRB already: the instruction makes an IRB and never stores it. -/
theorem tsch_delivers_iff (r1 addr : BitVec 64) (g : Guest) (hruns : g.stopped = false) :
    TschDelivers r1 addr g ↔ ∀ vdev, vdevOperand r1 addr g = .ok vdev →
      Storable g addr ∧ HoldsIrb g addr g.mem vdev.scsw := by
  constructor
  · intro h vdev hoperand
    obtain ⟨scsw, -, hresult⟩ := handleTsch_status hoperand
    have hstorable : Storable g addr := by
      by_contra hnot
      have hstopped := (h.refused vdev hoperand hnot).1
      rw [hresult, hruns] at hstopped
      exact Bool.false_ne_true hstopped
    have hirb := (h.stored vdev hoperand hstorable).irb
    rw [hresult] at hirb
    exact ⟨hstorable, hirb⟩
  · intro h
    constructor
    case stored =>
      intro vdev hoperand _
      obtain ⟨scsw, hstatus, hresult⟩ := handleTsch_status hoperand
      rw [hresult]
      exact ⟨(h vdev hoperand).2, fun _ _ => rfl, ⟨scsw, hstatus, rfl⟩, rfl⟩
    case refused =>
      intro vdev hoperand hnot
      exact absurd (h vdev hoperand).1 hnot

/-- A guest of one console with the SCSW, with its storage mapped to itself and zero. -/
def tschGuest (scsw : BitVec 96) : Guest :=
  ⟨fun page => some page, 0x100000, fun _ => 0, [⟨.cons, 0x10000, none, none, 0, 0, scsw, 0⟩],
    fun _ => [], 0, false⟩

/-- A start has ended: its function, and status pending with primary and secondary status. -/
def endedScsw : BitVec 96 :=
  scswSc.set (scPrimary ||| scSecondary ||| scStatus) (scswFc.set fcStart 0)

/-- The console has this status, and storage has it at 0x200. -/
def endedGuest : Guest :=
  { tschGuest endedScsw with mem := fun a => irbByte endedScsw (a - 0x200) }

/-- **A status that is pending and in storage already:** TSCH takes it, and the guest has
it, with condition code 0. -/
theorem tsch_delivers_iff_pending : TschDelivers 0x10000 0x200 endedGuest ∧
    (handleTsch 0x10000 0x200 endedGuest).2.cc = 0 ∧
    (handleTsch 0x10000 0x200 endedGuest).2.vdevs.map
      (fun v => (scswFc.get v.scsw, scswSc.get v.scsw)) = [(0, scPrimary ||| scSecondary)] := by
  refine ⟨(tsch_delivers_iff 0x10000 0x200 endedGuest rfl).2 fun vdev hoperand => ?_,
    by decide +kernel, by decide +kernel⟩
  obtain rfl := Except.ok.inj hoperand
  refine ⟨fun i _ => Option.some_ne_none _, fun i hi a ha => ?_⟩
  have haddr : ∀ v, virt2phyCurrent endedGuest.frames v = some v :=
    fun v => congrArg some (Nat.div_add_mod' v _)
  rw [haddr] at ha
  obtain rfl := Option.some.inj ha
  have hstart : (0x200 : BitVec 64).toNat = 0x200 := rfl
  rw [endedGuest, hstart]
  dsimp only
  rw [Nat.add_sub_cancel_left]

/-- **A status that is pending** is cleared, and storage has none of it: the condition code
is all that the guest learns. -/
theorem not_tsch_delivers : ¬ ∀ (r1 addr : BitVec 64) (g : Guest), g.stopped = false →
    TschDelivers r1 addr g := by
  intro h
  have hstored := (h 0x10000 0 (tschGuest (scswSc.set scStatus 0)) rfl).stored _ rfl
    fun i _ => Option.some_ne_none _
  exact absurd (hstored.irb 3 (by decide) 3 rfl) (by decide)

end Hvf
