/-
# The life cycle of a guest subchannel

Between two instructions a subchannel is idle, or it is status pending with its
start function in progress (`SubchInv`); SSCH takes it from the first to the
second and TSCH back, and at most one interruption is queued for it.

This holds as long as an accepted start gets to its channel program and TSCH
finds no interruption still queued (`SubchOk`).  A start that `handle_ssch`
accepts for a device without channel programs, or for which `spool_exec` finds no
memory, leaves the start function in progress without status; and TSCH does not
dequeue an interruption.
-/

import Hvf.Guest.ChannelProgram
import Hvf.Guest.InstructionPriv

namespace Hvf

open BitField Rounds StepRun

/-! ### The list of devices -/

/-- The device found has the subchannel asked for. -/
theorem findVdev_sch {vdevs : List VirtDevice} {sch : BitVec 32} {vdev : VirtDevice}
    (h : findVdev vdevs sch = some vdev) : vdev.sch = sch := by
  have hsch := List.find?_some h
  exact of_decide_eq_true hsch

/-- A store into a device is seen by the search for its number, and by no other. -/
theorem findVdev_setVdev {vdevs : List VirtDevice} {vdev old : VirtDevice}
    (h : findVdev vdevs vdev.sch = some old) (sch : BitVec 32) :
    findVdev (setVdev vdevs vdev) sch =
      if sch = vdev.sch then some vdev else findVdev vdevs sch := by
  induction vdevs with
  | nil => cases h
  | cons v vdevs ih =>
    unfold findVdev at h ih ⊢
    by_cases hv : v.sch = vdev.sch
    · rw [setVdev, if_pos hv]
      by_cases hsch : sch = vdev.sch
      · rw [if_pos hsch, List.find?_cons_of_pos (by simpa using hsch.symm)]
      · rw [if_neg hsch, List.find?_cons_of_neg (by simpa using fun heq => hsch heq.symm),
          List.find?_cons_of_neg (by rw [hv]; simpa using fun heq => hsch heq.symm)]
    · rw [List.find?_cons_of_neg (by simpa using hv)] at h
      rw [setVdev, if_neg hv]
      by_cases hsch : v.sch = sch
      · rw [List.find?_cons_of_pos (by simpa using hsch),
          List.find?_cons_of_pos (by simpa using hsch), if_neg (by rwa [← hsch])]
      · rw [List.find?_cons_of_neg (by simpa using hsch),
          List.find?_cons_of_neg (by simpa using hsch)]
        exact ih h

/-- The interruptions queued for a subchannel. -/
def queued (g : Guest) (sch : BitVec 32) : ℕ :=
  ∑ isc, (g.intIo isc).countP fun ioint => ioint.ssid = sch

/-- One queue is changed. -/
theorem queued_update (g : Guest) (isc : Fin 8) (queue : List VioInt) (sch : BitVec 32) :
    queued { g with intIo := Function.update g.intIo isc queue } sch +
        (g.intIo isc).countP (fun ioint => ioint.ssid = sch) =
      queued g sch + queue.countP fun ioint => ioint.ssid = sch := by
  unfold queued
  rw [← Finset.add_sum_erase _ _ (Finset.mem_univ isc),
    ← Finset.add_sum_erase Finset.univ (fun isc => (g.intIo isc).countP _) (Finset.mem_univ isc)]
  have hrest : ∀ i ∈ Finset.univ.erase isc,
      (Function.update g.intIo isc queue i).countP (fun ioint => ioint.ssid = sch) =
        (g.intIo i).countP fun ioint => ioint.ssid = sch := fun i hi => by
    rw [Function.update_of_ne (Finset.ne_of_mem_erase hi)]
  rw [Finset.sum_congr rfl hrest]
  dsimp only
  rw [Function.update_self]
  omega

/-! ### The states of a subchannel -/

/-- A start function is in progress. -/
def StartInProgress (vdev : VirtDevice) : Prop := scswFc.get vdev.scsw &&& fcStart ≠ 0

/-- Whether a start is in progress is decided from the status word. -/
instance (vdev : VirtDevice) : Decidable (StartInProgress vdev) :=
  inferInstanceAs (Decidable (_ ≠ _))

/-- A start in progress is a function in progress. -/
theorem StartInProgress.function {vdev : VirtDevice} (h : StartInProgress vdev) :
    FunctionInProgress vdev := by
  have hbits : ∀ fc : BitVec 3, fc &&& fcStart ≠ 0 →
      fc &&& (fcStart ||| fcHalt ||| fcClear) ≠ 0 := by decide
  exact hbits _ h

/-- **A subchannel that is idle**: no function, no activity, no status. A start function may
begin. -/
structure Idle (vdev : VirtDevice) : Prop where
  fc : scswFc.get vdev.scsw = 0
  ac : scswAc.get vdev.scsw = 0
  status : scswSc.get vdev.scsw &&& scStatus = 0
  intermed : scswSc.get vdev.scsw &&& scIntermed = 0

/-- **A subchannel with status pending**: a start function that has ended, with its status,
which TEST SUBCHANNEL takes. -/
structure Pending (vdev : VirtDevice) : Prop where
  fc : scswFc.get vdev.scsw = fcStart
  ac : scswAc.get vdev.scsw = 0
  status : scswSc.get vdev.scsw &&& scStatus ≠ 0
  intermed : scswSc.get vdev.scsw &&& scIntermed = 0

/-- An idle subchannel has no status pending. -/
theorem Idle.not_pending {vdev : VirtDevice} (h : Idle vdev) : ¬ StatusPending vdev :=
  not_not.2 h.status

/-- An idle subchannel has neither a start nor another function in progress. -/
theorem Idle.not_inProgress {vdev : VirtDevice} (h : Idle vdev) :
    ¬ StartInProgress vdev ∧ ¬ FunctionInProgress vdev := by
  rw [StartInProgress, FunctionInProgress, h.fc]
  decide

/-- Every subchannel is idle, or status pending with at most one interruption. -/
def SubchInv (g : Guest) : Prop :=
  ∀ sch vdev, findVdev g.vdevs sch = some vdev →
    Idle vdev ∧ queued g sch = 0 ∨ Pending vdev ∧ queued g sch ≤ 1

/-- **All subchannels are reset** and no interruption is queued, as behind the making of a
guest in cleared storage. -/
structure Reset (g : Guest) : Prop where
  scsw : ∀ vdev ∈ g.vdevs, vdev.scsw = 0
  intIo : ∀ isc, g.intIo isc = []

/-- After a reset every subchannel is idle and no interruption is queued. -/
theorem Reset.inv {g : Guest} (h : Reset g) : SubchInv g := by
  intro sch vdev hfind
  have hzero := h.scsw vdev (List.mem_of_find?_eq_some hfind)
  refine Or.inl ⟨⟨?_, ?_, ?_, ?_⟩, ?_⟩
  · rw [hzero, Field.get_zero]
  · rw [hzero, Field.get_zero]
  · rw [hzero, Field.get_zero]
    decide
  · rw [hzero, Field.get_zero]
    decide
  · rw [queued, Finset.sum_eq_zero]
    intro isc _
    rw [h.intIo isc, List.countP_nil]

/-- **The status of every subchannel and the queues are unchanged**; devices may have
changed in what else they have. -/
structure SameSubch (g g' : Guest) : Prop where
  intIo : g'.intIo = g.intIo
  scsw : ∀ sch, (findVdev g'.vdevs sch).map VirtDevice.scsw =
    (findVdev g.vdevs sch).map VirtDevice.scsw

/-- Having the same subchannels goes both ways. -/
theorem SameSubch.symm {g g' : Guest} (h : SameSubch g g') : SameSubch g' g :=
  ⟨h.intIo.symm, fun sch => (h.scsw sch).symm⟩

/-- A device found in the one is found in the other, with the same status. -/
theorem SameSubch.found {g g' : Guest} (h : SameSubch g g') {sch : BitVec 32} {vdev : VirtDevice}
    (hfind : findVdev g.vdevs sch = some vdev) :
    ∃ vdev', findVdev g'.vdevs sch = some vdev' ∧ vdev'.scsw = vdev.scsw := by
  have hscsw := h.scsw sch
  rw [hfind, Option.map_some, Option.map_eq_some_iff] at hscsw
  exact hscsw

/-- What leaves status and queues alone keeps the invariant. -/
theorem SameSubch.inv {g g' : Guest} (h : SameSubch g g') (hinv : SubchInv g) : SubchInv g' := by
  intro sch vdev hfind
  obtain ⟨old, hold, hscsw⟩ := h.symm.found hfind
  have hqueued : queued g' sch = queued g sch := by rw [queued, queued, h.intIo]
  rw [hqueued]
  refine (hinv sch old hold).imp (And.imp_left fun h => ?_) (And.imp_left fun h => ?_)
  · exact ⟨hscsw ▸ h.fc, hscsw ▸ h.ac, hscsw ▸ h.status, hscsw ▸ h.intermed⟩
  · exact ⟨hscsw ▸ h.fc, hscsw ▸ h.ac, hscsw ▸ h.status, hscsw ▸ h.intermed⟩

/-! ### The handlers -/

/-- An operand that names a device names one of the guest's. -/
theorem vdevOperand_ok {r1 addr : BitVec 64} {g : Guest} {vdev : VirtDevice}
    (h : vdevOperand r1 addr g = .ok vdev) : findVdev g.vdevs vdev.sch = some vdev := by
  unfold vdevOperand at h
  split at h
  · cases h
  · split at h
    · cases h
    · split at h
      · cases h
      · rename_i vdev' hfind
        obtain rfl := Except.ok.inj h
        rwa [findVdev_sch hfind]

/-- An instruction whose operands are wrong changes no device and no queue. -/
theorem vdevOperand_error {r1 addr : BitVec 64} {g g' : Guest}
    (h : vdevOperand r1 addr g = .error g') : SameSubch g g' := by
  unfold vdevOperand at h
  split at h
  · obtain rfl := Except.error.inj h
    exact ⟨rfl, fun _ => rfl⟩
  · split at h
    · obtain rfl := Except.error.inj h
      exact ⟨rfl, fun _ => rfl⟩
    · split at h
      · obtain rfl := Except.error.inj h
        exact ⟨rfl, fun _ => rfl⟩
      · cases h

/-- MODIFY SUBCHANNEL leaves status and queues alone. -/
theorem handleMsch_same (r1 addr : BitVec 64) (g : Guest) :
    SameSubch g (handleMsch r1 addr g).2 := by
  unfold handleMsch
  cases hoperand : vdevOperand r1 addr g with
  | error g' => exact vdevOperand_error hoperand
  | ok vdev =>
    have hfind := vdevOperand_ok hoperand
    dsimp only
    split
    · split <;> exact ⟨rfl, fun _ => rfl⟩
    · split
      · exact ⟨rfl, fun _ => rfl⟩
      · split
        · exact ⟨rfl, fun _ => rfl⟩
        · split
          · exact ⟨rfl, fun _ => rfl⟩
          · refine ⟨rfl, fun sch => ?_⟩
            have hset := fun pmcw =>
              findVdev_setVdev (show findVdev g.vdevs { vdev with pmcw }.sch = _ from hfind) sch
            dsimp only
            rw [hset]
            split
            · rename_i hsch
              rw [hsch, hfind]
              rfl
            · rfl

/-- STORE SUBCHANNEL leaves status and queues alone. -/
theorem handleStsch_same (r1 addr : BitVec 64) (g : Guest) :
    SameSubch g (handleStsch r1 addr g).2 := by
  unfold handleStsch
  cases hoperand : vdevOperand r1 addr g with
  | error g' => exact vdevOperand_error hoperand
  | ok vdev =>
    dsimp only
    split
    · split <;> exact ⟨rfl, fun _ => rfl⟩
    · split
      · split <;> exact ⟨rfl, fun _ => rfl⟩
      · exact ⟨rfl, fun _ => rfl⟩

/-- A TSCH finds a status that is pending and clears it, or it changes no device. -/
theorem handleTsch_cases (r1 addr : BitVec 64) (g : Guest) :
    (∃ vdev, vdevOperand r1 addr g = .ok vdev ∧ StatusPending vdev ∧
      (handleTsch r1 addr g).2 =
        { g with vdevs := setVdev g.vdevs { vdev with scsw := tschScsw vdev.scsw }, cc := 0 }) ∨
    (∀ vdev, vdevOperand r1 addr g = .ok vdev →
      ¬ StatusPending vdev ∧ (handleTsch r1 addr g).2.cc = 1) ∧
      SameSubch g (handleTsch r1 addr g).2 := by
  unfold handleTsch
  cases hoperand : vdevOperand r1 addr g with
  | error g' => exact Or.inr ⟨fun _ h => (nomatch h), vdevOperand_error hoperand⟩
  | ok vdev =>
    by_cases hpending : StatusPending vdev
    · refine Or.inl ⟨vdev, rfl, hpending, ?_⟩
      dsimp only
      rw [if_pos hpending]
    · dsimp only
      rw [if_neg hpending]
      refine Or.inr ⟨fun vdev' h => ?_, rfl, fun _ => rfl⟩
      obtain rfl := Except.ok.inj h
      exact ⟨hpending, rfl⟩

/-- Testing a pending status leaves the subchannel idle. -/
theorem Pending.tested {vdev : VirtDevice} (h : Pending vdev) :
    Idle { vdev with scsw := tschScsw vdev.scsw } := by
  have hfc : scswFc.get (tschScsw vdev.scsw) = 0 := by
    simp (disch := decide) only [tschScsw, Field.get_set_of_disjoint, Field.get_set, h.intermed,
      true_or, if_true]
  have hac : scswAc.get (tschScsw vdev.scsw) = 0 := by
    simp (disch := decide) only [tschScsw, Field.get_set_of_disjoint, Field.get_set, h.intermed,
      h.ac, if_true]
    decide
  have hsc : scswSc.get (tschScsw vdev.scsw) = scswSc.get vdev.scsw &&& ~~~scStatus := by
    rw [tschScsw, Field.get_set]
  refine ⟨hfc, hac, ?_, ?_⟩
  · dsimp only
    rw [hsc, BitVec.and_assoc]
    exact BitVec.and_zero
  · dsimp only
    rw [hsc, BitVec.and_assoc, BitVec.and_comm (~~~scStatus), ← BitVec.and_assoc, h.intermed]
    exact BitVec.zero_and

/-- The status that a channel program leaves behind a start. -/
theorem execFinish_pending (s : Exec) (gorb : BitVec 256) (vdev : VirtDevice) :
    Pending (execFinish s (startVdev gorb vdev)) := by
  have hfc : scswFc.get (execStatus s (startVdev gorb vdev).scsw) = fcStart := by
    unfold execStatus
    split <;>
      simp (disch := decide) only [Field.get_set_of_disjoint, startVdev, Field.get_set]
  have hac : scswAc.get (execStatus s (startVdev gorb vdev).scsw) = 0 := by
    unfold execStatus
    split <;>
      simp (disch := decide) only [Field.get_set_of_disjoint, startVdev, Field.get_set] <;>
      decide
  have hsc : scswSc.get (execStatus s (startVdev gorb vdev).scsw) =
        scPrimary ||| scSecondary ||| scStatus ∨
      scswSc.get (execStatus s (startVdev gorb vdev).scsw) =
        scPrimary ||| scSecondary ||| scStatus ||| scAlert := by
    unfold execStatus
    split
    · right
      simp (disch := decide) only [Field.get_set_of_disjoint, startVdev, Field.get_set,
        Field.get_zero]
      rfl
    · left
      simp (disch := decide) only [Field.get_set_of_disjoint, startVdev, Field.get_set,
        Field.get_zero]
      rfl
  refine ⟨hfc, hac, ?_, ?_⟩
  · rcases hsc with hsc | hsc
    · rw [execFinish, hsc]
      decide
    · rw [execFinish, hsc]
      decide
  · rcases hsc with hsc | hsc
    · rw [execFinish, hsc]
      decide
    · rw [execFinish, hsc]
      decide

/-- One more interruption is queued for the subchannel `ssid`. -/
theorem queueIoInterrupt_queued {alloc : Bool} {ssid param : BitVec 32} {a : BitVec 1}
    {isc : BitVec 3} {g g' : Guest} (h : queueIoInterrupt alloc ssid param a isc g = some g') :
    g'.vdevs = g.vdevs ∧
      ∀ sch, queued g' sch = queued g sch + if ssid = sch then 1 else 0 := by
  unfold queueIoInterrupt at h
  split at h
  · obtain rfl := Option.some.inj h
    refine ⟨rfl, fun sch => ?_⟩
    have hqueue := queued_update g isc.toFin
      (g.intIo isc.toFin ++
        [⟨ssid, param, (a.setWidth 32 <<< 31) ||| (isc.setWidth 32 <<< 27)⟩]) sch
    rw [List.countP_append, List.countP_singleton] at hqueue
    simp only [decide_eq_true_eq] at hqueue
    omega
  · cases h

/-- `spool_exec` has no buffer, or it stores the status and queues an interruption. -/
theorem spoolExec_cases {x : SschEnv} {vdev : VirtDevice} {g : Guest} {r : Int × Guest}
    (h : spoolExec x vdev g = some r) :
    x.iobuf = none ∧ r.2 = g ∨
      x.iobuf.isSome ∧ ∃ s, r.2.vdevs = setVdev g.vdevs (execFinish s vdev) ∧
        ∀ sch, queued r.2 sch = queued g sch + if vdev.sch = sch then 1 else 0 := by
  unfold spoolExec at h
  cases hbuf : x.iobuf with
  | none =>
    rw [hbuf] at h
    obtain rfl := Option.some.inj h
    exact Or.inl ⟨rfl, rfl⟩
  | some iobuf =>
    rw [hbuf] at h
    obtain ⟨s, _, h⟩ := Option.bind_eq_some_iff.1 h
    obtain ⟨g', hint, h⟩ := Option.bind_eq_some_iff.1 h
    obtain rfl := Option.some.inj h
    exact Or.inr ⟨rfl, s, queueIoInterrupt_queued hint⟩

/-- **What the subchannels are after a start that got to its channel program**: the one
started has status pending and one interruption queued, the others are as they were. -/
structure Ran (vdev : VirtDevice) (g g' : Guest) : Prop where
  cc : g'.cc = 0
  found : ∃ vdev', Pending vdev' ∧ ∀ sch,
    findVdev g'.vdevs sch = if sch = vdev.sch then some vdev' else findVdev g.vdevs sch
  count : ∀ sch, queued g' sch = queued g sch + if vdev.sch = sch then 1 else 0

/-- **What the subchannels are after a start that did not**: the one started has its start
function in progress and no status, and nothing is queued. -/
structure Wedges (vdev : VirtDevice) (g g' : Guest) : Prop where
  intIo : g'.intIo = g.intIo
  found : ∃ vdev', ¬ StatusPending vdev' ∧ StartInProgress vdev' ∧ ∀ sch,
    findVdev g'.vdevs sch = if sch = vdev.sch then some vdev' else findVdev g.vdevs sch

/-- A device just started has a start in progress and no status, until its program has run. -/
theorem startVdev_wedged (gorb : BitVec 256) (vdev : VirtDevice) :
    ¬ StatusPending (startVdev gorb vdev) ∧ StartInProgress (startVdev gorb vdev) := by
  constructor
  · simp (disch := decide) only [StatusPending, startVdev, Field.get_set_of_disjoint,
      Field.get_zero]
    decide
  · simp (disch := decide) only [StartInProgress, startVdev, Field.get_set_of_disjoint,
      Field.get_set]
    decide

/-- **A start** gets to a channel program if the device is one that has them and
there is a buffer.  If not, its start function stays in progress without status. -/
theorem sschStart_cases {x : SschEnv} {gorb : BitVec 256} {vdev : VirtDevice} {g g' : Guest}
    {ret : Int} (hfind : findVdev g.vdevs vdev.sch = some vdev)
    (h : sschStart x gorb vdev g = some (ret, g')) :
    ((vdev.vtype = .cons ∨ vdev.vtype = .spool) ∧ x.iobuf.isSome) ∧ Ran vdev g g' ∨
      ¬ ((vdev.vtype = .cons ∨ vdev.vtype = .spool) ∧ x.iobuf.isSome) ∧ Wedges vdev g g' := by
  have hstart := findVdev_setVdev
    (show findVdev g.vdevs (startVdev gorb vdev).sch = some vdev from hfind)
  have hwedged := startVdev_wedged gorb vdev
  have hexec : ∀ r, spoolExec x (startVdev gorb vdev)
      { g with vdevs := setVdev g.vdevs (startVdev gorb vdev) } = some r →
      x.iobuf.isSome ∧ Ran vdev g { r.2 with cc := 0 } ∨
        ¬ x.iobuf.isSome ∧ Wedges vdev g { r.2 with cc := 0 } := by
    intro r hr
    rcases spoolExec_cases hr with ⟨hbuf, heq⟩ | ⟨hbuf, s, hvdevs, hcount⟩
    · rw [hbuf, heq]
      exact Or.inr ⟨Bool.false_ne_true, rfl, _, hwedged.1, hwedged.2, hstart⟩
    · refine Or.inl ⟨hbuf, rfl, ⟨_, execFinish_pending s gorb vdev, fun sch => ?_⟩, hcount⟩
      have hmid : findVdev (setVdev g.vdevs (startVdev gorb vdev))
          (execFinish s (startVdev gorb vdev)).sch = some (startVdev gorb vdev) :=
        (hstart _).trans (if_pos rfl)
      have hsch : (execFinish s (startVdev gorb vdev)).sch = vdev.sch := rfl
      have hsch' : (startVdev gorb vdev).sch = vdev.sch := rfl
      dsimp only
      rw [hvdevs, findVdev_setVdev hmid, hstart, hsch, hsch']
      split <;> rfl
  unfold sschStart at h
  have hvtype : (startVdev gorb vdev).vtype = vdev.vtype := rfl
  dsimp only at h
  rw [hvtype] at h
  split at h
  · rename_i htype
    obtain ⟨r, hr, heq⟩ := Option.map_eq_some_iff.1 h
    obtain ⟨-, rfl⟩ := Prod.mk.inj heq
    exact (hexec r hr).imp (And.imp_left fun hbuf => ⟨Or.inl htype, hbuf⟩)
      (And.imp_left fun hbuf hok => hbuf hok.2)
  · rename_i htype
    obtain ⟨r, hr, heq⟩ := Option.map_eq_some_iff.1 h
    obtain ⟨-, rfl⟩ := Prod.mk.inj heq
    exact (hexec r hr).imp (And.imp_left fun hbuf => ⟨Or.inr htype, hbuf⟩)
      (And.imp_left fun hbuf hok => hbuf hok.2)
  · rename_i hcons hspool
    obtain ⟨-, rfl⟩ := Prod.mk.inj (Option.some.inj h)
    exact Or.inr ⟨fun hok => hok.1.elim hcons hspool, rfl, _, hwedged.1, hwedged.2, hstart⟩

/-- A start is refused for a pending status or a function in progress. -/
theorem handleSsch_cases {x : SschEnv} {r1 addr : BitVec 64} {g g' : Guest} {ret : Int}
    (h : handleSsch x r1 addr g = some (ret, g')) :
    (∃ vdev, vdevOperand r1 addr g = .ok vdev ∧ (fetchOperand g addr 32).ret = 0 ∧
      ¬ StatusPending vdev ∧ ¬ FunctionInProgress vdev ∧
      sschStart x (ofBytes 32 (fetchOperand g addr 32).data) vdev g = some (ret, g')) ∨
    (∀ vdev, vdevOperand r1 addr g = .ok vdev → (fetchOperand g addr 32).ret = 0 →
      (StatusPending vdev ∨ FunctionInProgress vdev) ∧
        g' = { g with cc := if StatusPending vdev then 1 else 2 }) ∧ SameSubch g g' := by
  unfold handleSsch at h
  cases hoperand : vdevOperand r1 addr g with
  | error _ =>
    rw [hoperand] at h
    obtain ⟨-, rfl⟩ := Prod.mk.inj (Option.some.inj h)
    exact Or.inr ⟨fun _ h => (nomatch h), vdevOperand_error hoperand⟩
  | ok vdev =>
    rw [hoperand] at h
    dsimp only at h
    split at h
    · rename_i hret
      refine Or.inr ⟨fun _ _ hret' => absurd hret' hret, ?_⟩
      split at h
      · obtain ⟨-, rfl⟩ := Prod.mk.inj (Option.some.inj h)
        exact ⟨rfl, fun _ => rfl⟩
      · obtain ⟨-, rfl⟩ := Prod.mk.inj (Option.some.inj h)
        exact ⟨rfl, fun _ => rfl⟩
    · rename_i hret
      split at h
      · rename_i hpending
        obtain ⟨-, rfl⟩ := Prod.mk.inj (Option.some.inj h)
        refine Or.inr ⟨fun vdev' h' _ => ?_, rfl, fun _ => rfl⟩
        obtain rfl := Except.ok.inj h'
        exact ⟨Or.inl hpending, by rw [if_pos hpending]⟩
      · rename_i hpending
        split at h
        · rename_i hfc
          obtain ⟨-, rfl⟩ := Prod.mk.inj (Option.some.inj h)
          refine Or.inr ⟨fun vdev' h' _ => ?_, rfl, fun _ => rfl⟩
          obtain rfl := Except.ok.inj h'
          exact ⟨Or.inr hfc, by rw [if_neg hpending]⟩
        · rename_i hfc
          exact Or.inl ⟨vdev, rfl, not_not.1 hret, hpending, hfc, h⟩

/-! ### Whole runs -/

/-- The refusal of an instruction changes nothing but the condition code. -/
def Refused (g g' : Guest) : Prop := ∃ cc ≠ 0, g' = { g with cc }

/-- The accepted start of the subchannel `sch` is over: its status is pending,
no activity bit is set and one interruption is queued for it. -/
structure Started (sch : BitVec 32) (g' : Guest) : Prop where
  cc : g'.cc = 0
  found : ∃ vdev, findVdev g'.vdevs sch = some vdev ∧ StatusPending vdev ∧
    scswAc.get vdev.scsw = 0
  count : queued g' sch = 1

/-- The next start of the subchannel `sch` is accepted. -/
def Ready (sch : BitVec 32) (g : Guest) : Prop :=
  ∃ vdev, findVdev g.vdevs sch = some vdev ∧ ¬ (StatusPending vdev ∨ StartInProgress vdev)

/-- **What the life cycle asks of a step** from `g` to `g'`. -/
def LifeStep (g : Guest) : SubchEvent → Guest → Prop
  | .ssch r1 addr _, g' => ∀ vdev, vdevOperand r1 addr g = .ok vdev →
      (fetchOperand g addr 32).ret = 0 →
      (StatusPending vdev ∨ StartInProgress vdev → Refused g g') ∧
        (¬ (StatusPending vdev ∨ StartInProgress vdev) → Started vdev.sch g')
  | .tsch r1 addr, g' => ∀ vdev, vdevOperand r1 addr g = .ok vdev → g'.cc = 0 →
      Ready vdev.sch g' ∧ queued g' vdev.sch = 0
  | _, _ => True

/-- The condition on a step: an SSCH with which a start begins is for a device
with channel programs and finds a buffer; and a TSCH that finds the status
pending finds no interruption queued. -/
def SubchOk (g : Guest) : SubchEvent → Prop
  | .ssch r1 addr x => ∀ vdev, vdevOperand r1 addr g = .ok vdev →
      (fetchOperand g addr 32).ret = 0 → ¬ StatusPending vdev → ¬ FunctionInProgress vdev →
      (vdev.vtype = .cons ∨ vdev.vtype = .spool) ∧ x.iobuf.isSome
  | .tsch r1 addr => ∀ vdev, vdevOperand r1 addr g = .ok vdev → StatusPending vdev →
      queued g vdev.sch = 0
  | _ => True

/-- A start leaves its subchannel pending and the others as they were. -/
theorem Ran.inv {vdev : VirtDevice} {g g' : Guest} (h : Ran vdev g g') (hinv : SubchInv g)
    (hqueued : queued g vdev.sch = 0) : SubchInv g' := by
  obtain ⟨vdev', hpending, hset⟩ := h.found
  intro sch v hv
  rw [hset] at hv
  rw [h.count]
  split at hv
  · rename_i hsch
    obtain rfl := Option.some.inj hv
    rw [hsch, hqueued, if_pos rfl]
    exact Or.inr ⟨hpending, le_refl 1⟩
  · rename_i hsch
    rw [if_neg fun heq => hsch heq.symm]
    exact hinv sch v hv

/-- **One step** keeps the states of the subchannels and is as the life cycle asks. -/
theorem SubchInv.step {g g' : Guest} {e : SubchEvent} (hinv : SubchInv g)
    (hstep : guarded SubchOk SubchStep g e g') : SubchInv g' ∧ LifeStep g e g' := by
  obtain ⟨hok, hstep⟩ := hstep
  cases hstep with
  | msch r1 addr => exact ⟨(handleMsch_same r1 addr g).inv hinv, trivial⟩
  | stsch r1 addr => exact ⟨(handleStsch_same r1 addr g).inv hinv, trivial⟩
  | storage mem => exact ⟨SameSubch.inv ⟨rfl, fun _ => rfl⟩ hinv, trivial⟩
  | resume => exact ⟨SameSubch.inv ⟨rfl, fun _ => rfl⟩ hinv, trivial⟩
  | ioInt isc hqueue =>
    rename_i ioint queue
    refine ⟨fun sch vdev hfind => ?_, trivial⟩
    have hupdate := queued_update g isc queue sch
    rw [hqueue, List.countP_cons] at hupdate
    refine (hinv sch vdev hfind).imp (And.imp_right fun h => ?_) (And.imp_right fun h => ?_)
    · omega
    · omega
  | ssch r1 addr x hssch =>
    rcases handleSsch_cases hssch with ⟨vdev, hoperand, hret, hpending, hfc, hstart⟩ |
      ⟨hrefused, hsame⟩
    · obtain ⟨htype, hbuf⟩ := hok vdev hoperand hret hpending hfc
      have hfind := vdevOperand_ok hoperand
      have hran : Ran vdev g g' := by
        rcases sschStart_cases hfind hstart with ⟨_, hran⟩ | ⟨hno, _⟩
        · exact hran
        · exact absurd ⟨htype, hbuf⟩ hno
      have hqueued : queued g vdev.sch = 0 := by
        rcases hinv vdev.sch vdev hfind with ⟨_, hqueued⟩ | ⟨h, _⟩
        · exact hqueued
        · exact absurd h.status hpending
      refine ⟨hran.inv hinv hqueued, fun v hv _ => ?_⟩
      obtain rfl := Except.ok.inj (hoperand.symm.trans hv)
      constructor
      · rintro (h | h)
        · exact absurd h hpending
        · exact absurd h.function hfc
      · intro _
        obtain ⟨vdev', hpending', hset⟩ := hran.found
        refine ⟨hran.cc, ⟨vdev', ?_, hpending'.status, hpending'.ac⟩, ?_⟩
        · rw [hset, if_pos rfl]
        · rw [hran.count, hqueued, if_pos rfl]
    · refine ⟨hsame.inv hinv, fun v hv hret => ?_⟩
      obtain ⟨hbusy, rfl⟩ := hrefused v hv hret
      refine ⟨fun _ => ⟨_, ?_, rfl⟩, fun hready => ?_⟩
      · split <;> decide
      · rcases hinv v.sch v (vdevOperand_ok hv) with ⟨h, _⟩ | ⟨h, _⟩
        · exact absurd hbusy (not_or.2 ⟨h.not_pending, h.not_inProgress.2⟩)
        · exact absurd (Or.inl h.status) hready
  | tsch r1 addr =>
    rcases handleTsch_cases r1 addr g with ⟨vdev, hoperand, hpending, heq⟩ | ⟨hcc, hsame⟩
    · have hfind := vdevOperand_ok hoperand
      have hqueued := hok vdev hoperand hpending
      have hidle : Idle { vdev with scsw := tschScsw vdev.scsw } := by
        rcases hinv vdev.sch vdev hfind with ⟨h, _⟩ | ⟨h, _⟩
        · exact absurd hpending h.not_pending
        · exact h.tested
      have hset := findVdev_setVdev
        (show findVdev g.vdevs { vdev with scsw := tschScsw vdev.scsw }.sch = some vdev from hfind)
      rw [heq]
      constructor
      · intro sch v hv
        dsimp only at hv
        rw [hset] at hv
        split at hv
        · rename_i hsch
          obtain rfl := Option.some.inj hv
          rw [hsch]
          exact Or.inl ⟨hidle, hqueued⟩
        · exact hinv sch v hv
      · intro v hv _
        obtain rfl := Except.ok.inj (hoperand.symm.trans hv)
        exact ⟨⟨_, (hset _).trans (if_pos rfl),
          not_or.2 ⟨hidle.not_pending, hidle.not_inProgress.1⟩⟩,
          hqueued⟩
    · refine ⟨hsame.inv hinv, fun v hv hzero => ?_⟩
      rw [(hcc v hv).2] at hzero
      exact absurd hzero (by decide)

/-- A pending status is tested away, so no subchannel is refused for ever. -/
theorem SubchInv.live {g : Guest} (hinv : SubchInv g) {sch : BitVec 32} {vdev : VirtDevice}
    (hfind : findVdev g.vdevs sch = some vdev) (haddr : sch &&& 0xffff0000 = 0x00010000) :
    ∃ ls g', Run SubchStep g ls g' ∧ Ready sch g' := by
  rcases hinv sch vdev hfind with ⟨h, _⟩ | ⟨h, _⟩
  · exact ⟨[], g, Run.nil, vdev, hfind, not_or.2 ⟨h.not_pending, h.not_inProgress.1⟩⟩
  · have hr1 : vdevOperand (sch.setWidth 64) 0 g = .ok vdev := by
      have hhigh : sch.setWidth 64 &&& (0xffff0000 : BitVec 64) = 0x00010000 := by
        have hwide : (0xffff0000 : BitVec 64) = (0xffff0000 : BitVec 32).setWidth 64 := by decide
        rw [hwide, ← BitVec.setWidth_and, haddr]
        rfl
      have hlow : (sch.setWidth 64).setWidth 32 = sch := by
        simp
      unfold vdevOperand
      rw [if_neg (not_not.2 hhigh), if_neg (by decide), hlow, hfind]
    refine ⟨[.tsch (sch.setWidth 64) 0], _, Run.nil.snoc (.tsch _ _), ?_⟩
    rcases handleTsch_cases (sch.setWidth 64) 0 g with ⟨v, hv, _, heq⟩ | ⟨hcc, _⟩
    · obtain rfl := Except.ok.inj (hr1.symm.trans hv)
      have hidle := h.tested
      have hset := findVdev_setVdev
        (show findVdev g.vdevs { vdev with scsw := tschScsw vdev.scsw }.sch = some vdev from
          vdevOperand_ok hv)
      rw [heq]
      exact ⟨_, (hset sch).trans (if_pos (findVdev_sch hfind).symm),
        not_or.2 ⟨hidle.not_pending, hidle.not_inProgress.1⟩⟩
    · exact absurd h.status (hcc vdev hr1).1

/-- A step that is as the life cycle asks meets the condition. -/
theorem LifeStep.ok {g g' : Guest} {e : SubchEvent} (hlife : LifeStep g e g')
    (hstep : SubchStep g e g') : SubchOk g e := by
  cases hstep with
  | msch r1 addr => trivial
  | stsch r1 addr => trivial
  | storage mem => trivial
  | resume => trivial
  | ioInt isc hqueue => trivial
  | ssch r1 addr x hssch =>
    intro vdev hoperand hret hpending hfc
    have hstarted := (hlife vdev hoperand hret).2
      (not_or.2 ⟨hpending, fun h => hfc h.function⟩)
    rcases handleSsch_cases hssch with ⟨v, hv, _, _, _, hstart⟩ | ⟨hrefused, _⟩
    · obtain rfl := Except.ok.inj (hoperand.symm.trans hv)
      rcases sschStart_cases (vdevOperand_ok hoperand) hstart with ⟨hok, _⟩ | ⟨_, hwedges⟩
      · exact hok
      · obtain ⟨v', hstatus, _, hset⟩ := hwedges.found
        obtain ⟨v'', hfind, hstatus', _⟩ := hstarted.found
        rw [hset, if_pos rfl] at hfind
        obtain rfl := Option.some.inj hfind
        exact absurd hstatus' hstatus
    · rcases (hrefused vdev hoperand hret).1 with h | h
      · exact absurd h hpending
      · exact absurd h hfc
  | tsch r1 addr =>
    intro vdev hoperand hpending
    rcases handleTsch_cases r1 addr g with ⟨v, hv, _, heq⟩ | ⟨hcc, _⟩
    · rw [heq] at hlife
      exact (hlife vdev hoperand rfl).2
    · exact absurd hpending (hcc vdev hoperand).1

/-- **The life cycle of a subchannel.**  In every state of a run from reset whose
steps meet the condition, a step is as the life cycle asks exactly when it meets
the condition too, and there is a way to a state in which the next start of a
given subchannel is accepted. -/
theorem subchannel_lifeCycle {g₀ g : Guest} {ls : List SubchEvent} (hreset : Reset g₀)
    (hrun : Run (guarded SubchOk SubchStep) g₀ ls g) :
    (∀ e g', SubchStep g e g' → (LifeStep g e g' ↔ SubchOk g e)) ∧
      ∀ sch vdev, findVdev g.vdevs sch = some vdev → sch &&& 0xffff0000 = 0x00010000 →
        ∃ ls' g', Run SubchStep g ls' g' ∧ Ready sch g' := by
  have hinv : SubchInv g :=
    hrun.invariant hreset.inv fun _ _ _ hinv hstep => (hinv.step hstep).1
  refine ⟨fun e g' hstep => ?_, fun sch vdev => hinv.live⟩
  exact ⟨fun hlife => hlife.ok hstep, fun hok => (hinv.step ⟨hok, hstep⟩).2⟩

/-- A console in storage that is all zero, so that the channel program of an SSCH
is one CCW that is not valid. -/
def consGuest : Guest :=
  ⟨fun page => some page, 0x100000, fun _ => 0, [consVdev], fun _ => [], 0, false⟩

/-- The guest with a console of the examples is reset. -/
theorem consGuest_reset : Reset consGuest :=
  ⟨fun vdev h => by rw [List.mem_singleton.1 h]; rfl, fun _ => rfl⟩

/-- Storage with an ORB at 0 and, at 0x40, a channel program that writes the byte at 0x80. -/
def writeStorage (a : ℕ) : UInt8 :=
  (([(5, 0x80), (11, 0x40), (0x40, 0x01), (0x43, 1), (0x47, 0x80), (0x80, 0xc1)] :
    List (ℕ × UInt8)).lookup a).getD 0

/-- The console with this program. -/
def writeGuest : Guest := { consGuest with mem := writeStorage }

/-- The guest with a channel program of the examples is reset. -/
theorem writeGuest_reset : Reset writeGuest :=
  ⟨consGuest_reset.scsw, consGuest_reset.intIo⟩

/-- **The whole life cycle:** the console is started, its interruption is presented, and
TSCH makes it ready for the next start. -/
theorem subchannel_lifeCycle_cons : ∃ x g₁ g₂ g₃,
    Run (guarded SubchOk SubchStep) writeGuest [.ssch 0x10000 0 x] g₁ ∧ Started 0x10000 g₁ ∧
    Run (guarded SubchOk SubchStep) writeGuest [.ssch 0x10000 0 x, .ioInt 0] g₂ ∧
    Run (guarded SubchOk SubchStep) writeGuest
      [.ssch 0x10000 0 x, .ioInt 0, .tsch 0x10000 0] g₃ ∧
    Ready 0x10000 g₃ ∧ queued g₃ 0x10000 = 0 := by
  let x : SschEnv := ⟨some fun _ => 0, consEnv.dev, true, 1⟩
  have hssch : (handleSsch x 0x10000 0 writeGuest).map (fun r => (r.2.intIo 0).map VioInt.ssid) =
      some [0x10000] := by
    decide +kernel
  obtain ⟨⟨ret, g₁⟩, hssch, hqueue⟩ := Option.map_eq_some_iff.1 hssch
  obtain ⟨ioint, hqueue, hssid⟩ := List.map_eq_singleton_iff.1 hqueue
  have hoperand : vdevOperand 0x10000 0 writeGuest = .ok consVdev := rfl
  have hret : (fetchOperand writeGuest 0 32).ret = 0 := by decide +kernel
  -- the start
  have hok : SubchOk writeGuest (.ssch 0x10000 0 x) := by
    intro vdev hvdev _ _ _
    obtain rfl := Except.ok.inj (hoperand.symm.trans hvdev)
    exact ⟨Or.inl rfl, rfl⟩
  have hstep := SubchStep.ssch 0x10000 0 x hssch
  have hlife := ((subchannel_lifeCycle writeGuest_reset Run.nil).1 _ g₁ hstep).2 hok
  have hstarted : Started 0x10000 g₁ := (hlife consVdev hoperand hret).2 (by decide +kernel)
  have hrun₁ : Run (guarded SubchOk SubchStep) writeGuest [.ssch 0x10000 0 x] g₁ :=
    Run.nil.snoc ⟨hok, hstep⟩
  -- the interruption
  obtain ⟨g₂, hg₂⟩ : ∃ g, g = { g₁ with intIo := Function.update g₁.intIo 0 [] } := ⟨_, rfl⟩
  have hint : guarded SubchOk SubchStep g₁ (.ioInt 0) g₂ := by
    rw [hg₂]
    exact ⟨trivial, SubchStep.ioInt 0 hqueue⟩
  have hrun₂ := hrun₁.snoc hint
  have hqueued := queued_update g₁ 0 [] 0x10000
  rw [hqueue, hstarted.count, List.countP_singleton, hssid, if_pos (by decide), List.countP_nil,
    ← hg₂] at hqueued
  -- TSCH finds the status of the start
  obtain ⟨vdev, hfind, hpending, -⟩ := hstarted.found
  have hsch := findVdev_sch hfind
  have hfind₂ : findVdev g₂.vdevs ((0x10000 : BitVec 64).setWidth 32) = some vdev := by
    rw [hg₂]
    exact hfind
  have hvdev : vdevOperand 0x10000 0 g₂ = .ok vdev := by
    unfold vdevOperand
    rw [if_neg (by decide), if_neg (by decide), hfind₂]
  have htested : SubchOk g₂ (.tsch 0x10000 0) := by
    intro v hv _
    obtain rfl := Except.ok.inj (hvdev.symm.trans hv)
    rw [hsch]
    exact Nat.succ_inj.1 hqueued
  have htsch := SubchStep.tsch (g := g₂) 0x10000 0
  have hready := ((subchannel_lifeCycle writeGuest_reset hrun₂).1 _ _ htsch).2 htested vdev hvdev
  rw [hsch] at hready
  refine ⟨x, g₁, g₂, _, hrun₁, hstarted, hrun₂, hrun₂.snoc ⟨htested, htsch⟩, hready ?_⟩
  rcases handleTsch_cases 0x10000 0 g₂ with ⟨_, _, _, heq⟩ | ⟨hnot, -⟩
  · rw [heq]
  · exact absurd hpending (hnot vdev hvdev).1

/-- The subchannel has a start function in progress and no status. -/
def Wedged (sch : BitVec 32) (g : Guest) : Prop :=
  ∃ vdev, findVdev g.vdevs sch = some vdev ∧ ¬ StatusPending vdev ∧ StartInProgress vdev

/-- A subchannel that waits for a status keeps waiting under what leaves status and queues
alone. -/
theorem SameSubch.wedged {g g' : Guest} (h : SameSubch g g') {sch : BitVec 32}
    (hwedged : Wedged sch g) : Wedged sch g' := by
  obtain ⟨vdev, hfind, hstatus, hstart⟩ := hwedged
  obtain ⟨vdev', hfind', hscsw⟩ := h.found hfind
  refine ⟨vdev', hfind', ?_, ?_⟩
  · rwa [StatusPending, hscsw]
  · rwa [StartInProgress, hscsw]

/-- No step ends it. -/
theorem Wedged.step {g g' : Guest} {e : SubchEvent} {sch : BitVec 32} (h : Wedged sch g)
    (hstep : SubchStep g e g') : Wedged sch g' := by
  cases hstep with
  | msch r1 addr => exact (handleMsch_same r1 addr g).wedged h
  | stsch r1 addr => exact (handleStsch_same r1 addr g).wedged h
  | storage mem => exact SameSubch.wedged ⟨rfl, fun _ => rfl⟩ h
  | resume => exact SameSubch.wedged ⟨rfl, fun _ => rfl⟩ h
  | ioInt isc hqueue => exact h
  | ssch r1 addr x hssch =>
    rcases handleSsch_cases hssch with ⟨v, hv, _, _, hfc, hstart⟩ | ⟨_, hsame⟩
    · obtain ⟨vdev, hfind, hstatus, hprogress⟩ := h
      have hfindv := vdevOperand_ok hv
      have hne : sch ≠ v.sch := by
        rintro rfl
        obtain rfl := Option.some.inj (hfindv.symm.trans hfind)
        exact hfc hprogress.function
      have hsame : findVdev g'.vdevs sch = findVdev g.vdevs sch := by
        rcases sschStart_cases hfindv hstart with ⟨_, h⟩ | ⟨_, h⟩
        · obtain ⟨_, _, hset⟩ := h.found
          rw [hset, if_neg hne]
        · obtain ⟨_, _, _, hset⟩ := h.found
          rw [hset, if_neg hne]
      exact ⟨vdev, hsame.trans hfind, hstatus, hprogress⟩
    · exact hsame.wedged h
  | tsch r1 addr =>
    rcases handleTsch_cases r1 addr g with ⟨v, hv, hpending, heq⟩ | ⟨_, hsame⟩
    · obtain ⟨vdev, hfind, hstatus, hprogress⟩ := h
      have hfindv := vdevOperand_ok hv
      have hne : sch ≠ v.sch := by
        rintro rfl
        obtain rfl := Option.some.inj (hfindv.symm.trans hfind)
        exact hstatus hpending
      have hset := findVdev_setVdev
        (show findVdev g.vdevs { v with scsw := tschScsw v.scsw }.sch = some v from hfindv)
      rw [heq]
      exact ⟨vdev, ((hset sch).trans (if_neg hne)).trans hfind, hstatus, hprogress⟩
    · exact hsame.wedged h

/-- **A subchannel that is wedged stays so**, and no start of it is accepted again. -/
theorem Wedged.run {g g' : Guest} {ls : List SubchEvent} {sch : BitVec 32} (h : Wedged sch g)
    (hrun : Run SubchStep g ls g') : Wedged sch g' ∧ ¬ Ready sch g' := by
  have hwedged : Wedged sch g' := hrun.invariant h fun _ _ _ h hstep => h.step hstep
  refine ⟨hwedged, fun hready => ?_⟩
  obtain ⟨vdev, hfind, _, hprogress⟩ := hwedged
  obtain ⟨vdev', hfind', hnot⟩ := hready
  obtain rfl := Option.some.inj (hfind.symm.trans hfind')
  exact hnot (Or.inr hprogress)

/-- A console for which `alloc_pages` has no buffer is wedged by one SSCH: the start
function stays in progress, and no status ever comes. -/
theorem subchannel_wedged : ∃ e g, Reset consGuest ∧ SubchStep consGuest e g ∧
    ¬ LifeStep consGuest e g ∧ ∀ ls' g', Run SubchStep g ls' g' → ¬ Ready 0x10000 g' := by
  have hssch : (handleSsch ⟨none, consEnv.dev, true, 1⟩ 0x10000 0 consGuest).isSome := by
    decide +kernel
  obtain ⟨⟨ret, g⟩, hssch⟩ := Option.isSome_iff_exists.1 hssch
  have hstep := SubchStep.ssch 0x10000 0 _ hssch
  have hoperand : vdevOperand 0x10000 0 consGuest = .ok consVdev := rfl
  have hret : (fetchOperand consGuest 0 32).ret = 0 := by decide +kernel
  have hwedged : Wedged 0x10000 g := by
    rcases handleSsch_cases hssch with ⟨v, hv, _, _, _, hstart⟩ | ⟨hrefused, _⟩
    · obtain rfl := Except.ok.inj (hoperand.symm.trans hv)
      rcases sschStart_cases (vdevOperand_ok hoperand) hstart with ⟨hok, _⟩ | ⟨_, hwedges⟩
      · exact absurd hok.2 Bool.false_ne_true
      · obtain ⟨v', hstatus, hprogress, hset⟩ := hwedges.found
        exact ⟨v', (hset _).trans (if_pos rfl), hstatus, hprogress⟩
    · exact absurd (hrefused consVdev hoperand hret).1 (by decide +kernel)
  refine ⟨_, g, consGuest_reset, hstep, fun hlife => ?_, fun ls' g' hrun => (hwedged.run hrun).2⟩
  exact absurd ((hlife.ok hstep) consVdev hoperand hret (by decide +kernel) (by decide +kernel)).2
    Bool.false_ne_true

end Hvf
