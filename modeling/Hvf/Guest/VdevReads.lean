/-
# What the instructions read of a device

STSCH stores the PMCW and the SCSW of a device; SSCH looks at the status, and then
stores over it and over the ORB.  `spool_exec` goes on with the spool file and the
commands of the device, and the sense byte it only stores.  So the first of them finds
the same for two devices that agree in these (`SameVdev`), whatever else is in their
storage: `handleStsch_reads` and `handleSsch_reads`.
-/

import Hvf.Guest.InstructionPriv

namespace Hvf

open BitField Rounds

/-! ### `spool_exec` -/

/-- Another sense byte. -/
def Exec.setSense (t : BitVec 8) (s : Exec) : Exec := { s with dev := { s.dev with sense := t } }

/-- The states differ in the sense byte at most. -/
def SameExec (s s' : Exec) : Prop := ∃ t, s' = s.setSense t

/-- The devices differ in the sense byte at most. -/
def SameSpDev (d d' : SpDev) : Prop := ∃ t, d' = { d with sense := t }

/-- What `spool_exec` is given for the devices of a guest. -/
def OpsKnown (ops : Option SpoolOps) : Prop := ops = none ∨ ops = some spoolConsOps

section Exec

variable {env : ExecEnv} {s s' : Exec} {ccw : Ccw} {a : BitVec 32}

/-- An execution agrees with itself. -/
theorem SameExec.refl (s : Exec) : SameExec s s := ⟨s.dev.sense, rfl⟩

/-- The sense byte is no part of a transfer. -/
theorem xferStorage_setSense (env : ExecEnv) (ccw : Ccw) (write : Bool) (s : Exec) (t : BitVec 8) :
    _xferStorage env ccw write (s.setSense t) = (_xferStorage env ccw write s).setSense t := by
  unfold _xferStorage
  split_ifs
  · rfl
  · rfl
  · rfl

/-- `cons_write` stores the sense byte and does not read it. -/
theorem consWrite_setSense (e : DevEnv) (ccw : Ccw) (iobuf : ℕ → UInt8) (d : SpDev)
    (t : BitVec 8) :
    Option.Rel SameSpDev (consWrite e ccw iobuf d)
      (consWrite e ccw iobuf { d with sense := t }) := by
  unfold consWrite
  dsimp only
  split_ifs with hcmd
  · exact .some ⟨_, rfl⟩
  · cases openSpoolfile e d.file with
    | none => exact .some ⟨_, rfl⟩
    | some file =>
      dsimp only
      cases spoolAppendRec file (bufAround e.before iobuf) (min ccw.count.toNat 150) e.supply with
      | none => exact .none
      | some a =>
        simp only [Option.bind_eq_bind, Option.bind_some]
        split_ifs
        · exact .some ⟨_, rfl⟩
        · exact .some ⟨_, rfl⟩

/-- A device's command does not read the sense byte. -/
theorem deviceCommand_setSense (ccw : Ccw) (s : Exec) (hops : OpsKnown env.ops) (t : BitVec 8) :
    Option.Rel SameSpDev (deviceCommand env ccw s) (deviceCommand env ccw (s.setSense t)) := by
  unfold deviceCommand
  rcases hops with hops | hops
  · rw [hops]
    exact .some ⟨_, rfl⟩
  · rw [hops, Option.bind_some, spoolConsOps]
    split_ifs
    · exact consWrite_setSense _ _ _ _ _
    · exact .some ⟨_, rfl⟩

/-- Chaining to the next CCW does not read the sense byte. -/
theorem spoolChain_setSense (t : BitVec 8) :
    Round.Rel SameExec (spoolChain env ccw s) (spoolChain env ccw (s.setSense t)) := by
  unfold spoolChain
  have hstatus : (s.setSense t).dev.devStatus = s.dev.devStatus := rfl
  rw [hstatus]
  split_ifs with hend hread hlast
  · exact .out ⟨t, rfl⟩
  · rw [xferStorage_setSense]
    exact .out ⟨t, rfl⟩
  · rw [xferStorage_setSense]
    exact .next ⟨t, rfl⟩
  · exact .out ⟨t, rfl⟩
  · exact .next ⟨t, rfl⟩

/-- A transfer in channel does not read the sense byte. -/
theorem spoolTic_setSense (t : BitVec 8) :
    Round.Rel SameExec (spoolTic ccw s) (spoolTic ccw (s.setSense t)) := by
  unfold spoolTic
  have htic : (s.setSense t).tic2tic = s.tic2tic := rfl
  have hformat : (s.setSense t).f = s.f := rfl
  rw [htic, hformat]
  split_ifs
  · exact .out ⟨t, rfl⟩
  · exact .out ⟨t, rfl⟩
  · exact .next ⟨t, rfl⟩

/-- The execution of one CCW does not read the sense byte. -/
theorem execCcw_setSense (a : BitVec 32) (ccw : Ccw) (s : Exec) (hops : OpsKnown env.ops)
    (t : BitVec 8) :
    Option.Rel SameExec (execCcw env a ccw s) (execCcw env a ccw (s.setSense t)) := by
  have hdev := deviceCommand_setSense ccw s hops t
  unfold execCcw
  generalize deviceCommand env ccw s = d at hdev ⊢
  generalize deviceCommand env ccw (s.setSense t) = d' at hdev ⊢
  cases hdev with
  | none => exact .none
  | some h =>
    obtain ⟨t', rfl⟩ := h
    exact .some ⟨t', rfl⟩

/-- A CCW and the chaining behind it do not read the sense byte. -/
theorem execChain_setSense (hops : OpsKnown env.ops) (t : BitVec 8) :
    Round.Rel SameExec
      (match execCcw env a ccw s with
        | none => .stop
        | some s => spoolChain env ccw s)
      (match execCcw env a ccw (s.setSense t) with
        | none => .stop
        | some s => spoolChain env ccw s) := by
  have hexec := execCcw_setSense a ccw s hops t
  generalize execCcw env a ccw s = r at hexec ⊢
  generalize execCcw env a ccw (s.setSense t) = r' at hexec ⊢
  cases hexec with
  | none => exact .stop
  | some h =>
    obtain ⟨t', rfl⟩ := h
    exact spoolChain_setSense t'

/-- **A round of the channel program does not read the sense byte**, so what was left of it does
not matter. -/
theorem spoolCommand_setSense (hops : OpsKnown env.ops) (t : BitVec 8) :
    Round.Rel SameExec (spoolCommand env a ccw s) (spoolCommand env a ccw (s.setSense t)) := by
  unfold spoolCommand
  have hnext : { s.setSense t with tic2tic := false } =
    ({ s with tic2tic := false } : Exec).setSense t := rfl
  rw [hnext]
  dsimp only [Exec.setSense]
  split_ifs with hinvalid hwrite
  · exact .out ⟨t, rfl⟩
  · have hxfer := xferStorage_setSense env ccw true { s with tic2tic := false } t
    dsimp only [Exec.setSense] at hxfer
    rw [hxfer]
    exact execChain_setSense hops t
  · exact execChain_setSense (s := { s with tic2tic := false }) hops t

/-- **A round** does not depend on the sense byte. -/
theorem spoolRound_setSense (hops : OpsKnown env.ops) (s s' : Exec) (h : SameExec s s') :
    Round.Rel SameExec (spoolRound env s) (spoolRound env s') := by
  obtain ⟨t, rfl⟩ := h
  unfold spoolRound
  have hccw : _getCcw env (s.setSense t).mem (s.setSense t).f (s.setSense t).addr =
    _getCcw env s.mem s.f s.addr := rfl
  rw [hccw]
  cases _getCcw env s.mem s.f s.addr with
  | error schStatus => exact .out ⟨t, rfl⟩
  | ok ccw =>
    dsimp only
    have hstatus : (s.setSense t).schStatus = s.schStatus := rfl
    rw [hstatus]
    split_ifs
    · exact .out ⟨t, rfl⟩
    · exact spoolTic_setSense (s := { s with addr := s.addr + 8, cnt := s.cnt + 1 }) t
    · exact spoolCommand_setSense (s := { s with addr := s.addr + 8, cnt := s.cnt + 1 }) hops t

end Exec

/-! ### The instructions -/

/-- The devices agree in what an instruction reads of them before it stores into it: a
device without a spool file has no use for `u.spool`. -/
structure SameVdev (v v' : VirtDevice) : Prop where
  vtype : v'.vtype = v.vtype
  sch : v'.sch = v.sch
  pmcw : v'.pmcw = v.pmcw
  scsw : v'.scsw = v.scsw
  spool : v.vtype = .cons ∨ v.vtype = .spool → v'.file = v.file ∧ v'.ops = v.ops

/-- The guests agree but for what else is in the storage of their devices. -/
def SameRun (g g' : Guest) : Prop :=
  ∃ vdevs, List.Forall₂ SameVdev g.vdevs vdevs ∧ g' = { g with vdevs }

/-- What two instructions return, and the guests they leave. -/
def SameEnd (r r' : Int × Guest) : Prop := r'.1 = r.1 ∧ SameRun r.2 r'.2

/-- The devices with a spool file have no commands but those of the console. -/
def VdevsKnown (vdevs : List VirtDevice) : Prop :=
  ∀ v ∈ vdevs, v.vtype = .cons ∨ v.vtype = .spool → OpsKnown v.ops

section Instructions

variable {g g' : Guest} {vdevs vdevs' : List VirtDevice} {v v' : VirtDevice} {r1 addr : BitVec 64}

/-- The same subchannel is found in both guests. -/
theorem findVdev_same (h : List.Forall₂ SameVdev vdevs vdevs') (sch : BitVec 32) :
    Option.Rel SameVdev (findVdev vdevs sch) (findVdev vdevs' sch) := by
  induction h with
  | nil => exact .none
  | @cons v v' vdevs vdevs' hv _ ih =>
    unfold findVdev at ih ⊢
    by_cases hsch : v.sch = sch
    · rw [List.find?_cons_of_pos (by simpa using hsch),
        List.find?_cons_of_pos (by simpa [hv.sch] using hsch)]
      exact .some hv
    · rw [List.find?_cons_of_neg (by simpa using hsch),
        List.find?_cons_of_neg (by simpa [hv.sch] using hsch)]
      exact ih

/-- A store into both devices leaves guests that agree. -/
theorem setVdev_same (h : List.Forall₂ SameVdev vdevs vdevs') (hv : SameVdev v v') :
    List.Forall₂ SameVdev (setVdev vdevs v) (setVdev vdevs' v') := by
  induction h with
  | nil => exact .nil
  | @cons u u' vdevs vdevs' hu hrest ih =>
    rw [setVdev, setVdev, hu.sch, hv.sch]
    split_ifs
    · exact .cons hv hrest
    · exact .cons hu ih

/-- The instructions find the same device, or end the same way. -/
theorem vdevOperand_same (h : SameRun g g') (r1 addr : BitVec 64) :
    (∃ u u', vdevOperand r1 addr g = .error u ∧ vdevOperand r1 addr g' = .error u' ∧
      SameRun u u') ∨
    ∃ v v', vdevOperand r1 addr g = .ok v ∧ vdevOperand r1 addr g' = .ok v' ∧ SameVdev v v' ∧
      v ∈ g.vdevs := by
  obtain ⟨vdevs, hvdevs, rfl⟩ := h
  unfold vdevOperand
  split_ifs
  · exact Or.inl ⟨_, _, rfl, rfl, vdevs, hvdevs, rfl⟩
  · exact Or.inl ⟨_, _, rfl, rfl, vdevs, hvdevs, rfl⟩
  · have hfind := findVdev_same hvdevs (r1.setWidth 32)
    have hmem := fun v (hv : findVdev g.vdevs (r1.setWidth 32) = some v) =>
      List.mem_of_find?_eq_some hv
    dsimp only
    generalize findVdev g.vdevs (r1.setWidth 32) = o at hfind hmem ⊢
    generalize findVdev vdevs (r1.setWidth 32) = o' at hfind ⊢
    cases hfind with
    | none => exact Or.inl ⟨_, _, rfl, rfl, vdevs, hvdevs, rfl⟩
    | some hv => exact Or.inr ⟨_, _, rfl, rfl, hv, hmem _ rfl⟩

/-- **STSCH** stores the same. -/
theorem handleStsch_reads (h : SameRun g g') (r1 addr : BitVec 64) :
    SameEnd (handleStsch r1 addr g) (handleStsch r1 addr g') := by
  unfold handleStsch
  rcases vdevOperand_same h r1 addr with ⟨u, u', hu, hu', hsame⟩ | ⟨v, v', hv, hv', hsame, -⟩
  · rw [hu, hu']
    exact ⟨rfl, hsame⟩
  · rw [hv, hv']
    obtain ⟨vdevs, hvdevs, rfl⟩ := h
    dsimp only
    rw [hsame.pmcw, hsame.scsw]
    split_ifs
    · exact ⟨rfl, vdevs, hvdevs, rfl⟩
    · exact ⟨rfl, vdevs, hvdevs, rfl⟩
    · exact ⟨rfl, vdevs, hvdevs, rfl⟩
    · exact ⟨rfl, vdevs, hvdevs, rfl⟩
    · exact ⟨rfl, vdevs, hvdevs, rfl⟩

/-- A condition code set in both leaves ends that agree. -/
theorem SameEnd.done {r r' : Int × Guest} (h : SameEnd r r') :
    SameEnd (r.1, { r.2 with cc := 0 }) (r'.1, { r'.2 with cc := 0 }) := by
  obtain ⟨hret, vdevs, hvdevs, hguest⟩ := h
  exact ⟨hret, vdevs, hvdevs, by rw [hguest]⟩

/-- An operand is fetched from the same storage. -/
theorem fetchOperand_same (h : SameRun g g') (addr : BitVec 64) (len : ℕ) :
    fetchOperand g' addr len = fetchOperand g addr len := by
  obtain ⟨vdevs, -, rfl⟩ := h
  rw [fetchOperand, fetchOperand]

/-- The end of a channel program leaves devices that agree. -/
theorem execFinish_same {s s' : Exec} (hv : SameVdev v v') (h : SameExec s s') :
    SameVdev (execFinish s v) (execFinish s' v') := by
  obtain ⟨t, rfl⟩ := h
  refine ⟨hv.vtype, hv.sch, hv.pmcw, ?_, fun hspool => ⟨rfl, (hv.spool hspool).2⟩⟩
  show execStatus (s.setSense t) v'.scsw = execStatus s v.scsw
  rw [hv.scsw]
  rfl

/-- **A channel program reads no more of a device than that**: from guests that agree, it leaves
guests that agree. -/
theorem spoolExec_reads {x : SschEnv} (h : SameRun g g') (hv : SameVdev v v')
    (hspool : v.vtype = .cons ∨ v.vtype = .spool) (hops : OpsKnown v.ops) (horb : v'.orb = v.orb) :
    Option.Rel SameEnd (spoolExec x v g) (spoolExec x v' g') := by
  obtain ⟨vdevs, hvdevs, rfl⟩ := h
  obtain ⟨hfile, hsops⟩ := hv.spool hspool
  unfold spoolExec
  cases x.iobuf with
  | none => exact .some ⟨rfl, vdevs, hvdevs, rfl⟩
  | some iobuf =>
    dsimp only
    rw [hsops]
    have hstart : SameExec (execStart v iobuf g.mem) (execStart v' iobuf g.mem) :=
      ⟨v'.sense, by rw [execStart, execStart, horb, hfile]; rfl⟩
    have hround := @spoolRound_setSense ⟨g.frames, g.storageSize, v.ops, x.dev⟩ hops
    have hresult := result_rel hround hstart x.rounds
    generalize result _ _ (execStart v iobuf g.mem) = r at hresult ⊢
    generalize result _ _ (execStart v' iobuf g.mem) = r' at hresult ⊢
    cases hresult with
    | none => exact .none
    | @some s s' hend =>
      have hfinish := execFinish_same hv hend
      obtain ⟨t, rfl⟩ := hend
      simp only [Option.bind_eq_bind, Option.bind_some]
      rw [hfinish.sch, hfinish.pmcw]
      unfold queueIoInterrupt
      split_ifs
      · exact .some ⟨rfl, _, setVdev_same hvdevs hfinish, rfl⟩
      · exact .none

/-- START SUBCHANNEL on guests that agree leaves guests that agree. -/
theorem sschStart_reads {x : SschEnv} (h : SameRun g g') (hv : SameVdev v v')
    (hops : v.vtype = .cons ∨ v.vtype = .spool → OpsKnown v.ops) (gorb : BitVec 256) :
    Option.Rel SameEnd (sschStart x gorb v g) (sschStart x gorb v' g') := by
  have hstart : SameVdev (startVdev gorb v) (startVdev gorb v') :=
    ⟨hv.vtype, hv.sch, by rw [startVdev, startVdev, hv.pmcw], rfl, hv.spool⟩
  obtain ⟨vdevs, hvdevs, rfl⟩ := h
  have hset : SameRun { g with vdevs := setVdev g.vdevs (startVdev gorb v) }
      { g with vdevs := setVdev vdevs (startVdev gorb v') } :=
    ⟨_, setVdev_same hvdevs hstart, rfl⟩
  unfold sschStart
  have hvtype : (startVdev gorb v).vtype = v.vtype := rfl
  have hvtype' : (startVdev gorb v').vtype = v.vtype := hv.vtype
  dsimp only
  rw [hvtype, hvtype']
  have hexec : ∀ hspool : v.vtype = .cons ∨ v.vtype = .spool, Option.Rel SameEnd
      ((spoolExec x (startVdev gorb v) { g with vdevs := setVdev g.vdevs (startVdev gorb v) }).map
        fun r => (r.1, { r.2 with cc := 0 }))
      ((spoolExec x (startVdev gorb v') { g with vdevs := setVdev vdevs (startVdev gorb v') }).map
        fun r => (r.1, { r.2 with cc := 0 })) := fun hspool => by
    have hrel := spoolExec_reads (x := x) hset hstart hspool (hops hspool) rfl
    generalize spoolExec x (startVdev gorb v) _ = r at hrel ⊢
    generalize spoolExec x (startVdev gorb v') _ = r' at hrel ⊢
    cases hrel with
    | none => exact .none
    | some hend => exact .some hend.done
  cases hkind : v.vtype with
  | cons => exact hexec (Or.inl hkind)
  | spool => exact hexec (Or.inr hkind)
  | inval => exact .some ⟨rfl, _, setVdev_same hvdevs hstart, rfl⟩
  | ded => exact .some ⟨rfl, _, setVdev_same hvdevs hstart, rfl⟩
  | mdisk => exact .some ⟨rfl, _, setVdev_same hvdevs hstart, rfl⟩
  | link => exact .some ⟨rfl, _, setVdev_same hvdevs hstart, rfl⟩

/-- **SSCH** does the same. -/
theorem handleSsch_reads {x : SschEnv} (h : SameRun g g') (hops : VdevsKnown g.vdevs)
    (r1 addr : BitVec 64) :
    Option.Rel SameEnd (handleSsch x r1 addr g) (handleSsch x r1 addr g') := by
  unfold handleSsch
  rw [fetchOperand_same h]
  generalize fetchOperand g addr 32 = r
  rcases vdevOperand_same h r1 addr with ⟨u, u', hu, hu', hsame⟩ | ⟨v, v', hv, hv', hsame, hmem⟩
  · rw [hu, hu']
    exact .some ⟨rfl, hsame⟩
  · rw [hv, hv']
    dsimp only
    have hpending : StatusPending v' ↔ StatusPending v := by
      rw [StatusPending, StatusPending, hsame.scsw]
    have hfunction : FunctionInProgress v' ↔ FunctionInProgress v := by
      rw [FunctionInProgress, FunctionInProgress, hsame.scsw]
    simp only [hpending, hfunction]
    have hstart := sschStart_reads (x := x) h hsame (hops v hmem) (ofBytes 32 r.data)
    obtain ⟨vdevs, hvdevs, rfl⟩ := h
    split_ifs
    · exact .some ⟨rfl, vdevs, hvdevs, rfl⟩
    · exact .some ⟨rfl, vdevs, hvdevs, rfl⟩
    · exact .some ⟨rfl, vdevs, hvdevs, rfl⟩
    · exact .some ⟨rfl, vdevs, hvdevs, rfl⟩
    · exact hstart

end Instructions

end Hvf
