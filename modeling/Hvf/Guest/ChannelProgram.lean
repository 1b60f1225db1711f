/-
# Channel programs: the code and the architecture

`archRound` is one round of a reference interpreter: the CCW at the current
address is fetched, checked and executed, and with command chaining the next CCW
is the one 8 bytes further.  `spool_exec` adds 8 when it fetches a CCW and 8
again when it chains, so it takes every other CCW.  The two agree, round by
round and in what they store at the end, exactly if the program does not get to
chain its first command (`spoolExec_arch_iff`).
-/

import Hvf.Guest.SpoolExec

namespace Hvf

open BitField Rounds

/-! ### The reference interpreter -/

/-- The operand of a CCW is accessed, before (`write`) or after the command. -/
def archOperand (env : ExecEnv) (ccw : Ccw) (write : Bool) (s : Exec) : Exec :=
  if bif write then isCcwWrite ccw.cmd else isCcwRead ccw.cmd then _xferStorage env ccw write s
  else s

/-- A TIC continues at its target, but a TIC that follows a TIC is a program
check, and so is one of format 1 with flags or a count. -/
def archTic (ccw : Ccw) (s : Exec) : Round Exec :=
  if s.tic2tic ∨ s.f ∧ (ccw.flags ≠ 0 ∨ ccw.count ≠ 0) then .out s.progCheck
  else .next { s with addr := ccw.addr, tic2tic := true }

/-- The program goes on behind a command with chaining that the device has ended
with channel end and device end, and with nothing else. -/
def archChain (env : ExecEnv) (ccw : Ccw) (s : Exec) : Round Exec :=
  if s.dev.devStatus ≠ scStatusCe ||| scStatusDe then .out s
  else
    let s := archOperand env ccw false s
    if s.schStatus ≠ 0 ∨ ccw.flags &&& ccwFlagCc = 0 then .out s else .next s

/-- An invalid CCW is a program check; the device executes a command only if its
operand could be fetched. -/
def archCommand (env : ExecEnv) (a : BitVec 32) (ccw : Ccw) (s : Exec) : Round Exec :=
  let s := { s with tic2tic := false }
  if invalidCcw s.f false ccw then .out s.progCheck
  else
    let s := archOperand env ccw true s
    if s.schStatus ≠ 0 then .out s
    else
      match execCcw env a ccw s with
      | none => .stop
      | some s => archChain env ccw s

/-- One round of an architected channel program.  The address is always 8 past
the last CCW used, which is where a chained program goes on. -/
def archRound (env : ExecEnv) (s : Exec) : Round Exec :=
  match _getCcw env s.mem s.f s.addr with
  | .error schStatus => .out { s with addr := s.addr + 8, schStatus, cnt := s.cnt + 1 }
  | .ok ccw =>
      let a := s.addr
      let s := { s with addr := s.addr + 8, cnt := s.cnt + 1 }
      if ccw.cmd = ccwCmdTic then archTic ccw s else archCommand env a ccw s

/-! ### What is compared -/

/-- In each round: the address of the CCW fetched and the CCWs executed so far. -/
def roundView (s : Exec) : BitVec 32 × List (BitVec 32 × Ccw) := (s.addr, s.executed)

/-- **At the end of a channel program**: the CCWs executed with their addresses, both
statuses, and the address stored in the status word. -/
structure Ended where
  executed : List (BitVec 32 × Ccw)
  schStatus : BitVec 8
  devStatus : BitVec 8
  addr : BitVec 32
  deriving DecidableEq

/-- The end of a program according to the architecture. -/
def archEnded (s : Exec) : Ended := ⟨s.executed, s.schStatus, s.dev.devStatus, s.addr⟩

/-- The end of a program according to the SCSW that `spool_exec` stores. -/
def scswEnded (vdev : VirtDevice) (s : Exec) : Ended :=
  let scsw := (execFinish s vdev).scsw
  ⟨s.executed, scswSchStatus.get scsw, scswDevStatus.get scsw, scswAddr.get scsw⟩

/-- `spool_exec` runs the channel program of the device as architected: for any
number of rounds the same CCWs are fetched and executed, and the program ends in
the same way. -/
def RunsAsArchitected (env : ExecEnv) (vdev : VirtDevice) (iobuf mem : ℕ → UInt8) : Prop :=
  ∀ n, (trace (spoolRound env) n (execStart vdev iobuf mem)).map roundView =
      (trace (archRound env) n (execStart vdev iobuf mem)).map roundView ∧
    (result (spoolRound env) n (execStart vdev iobuf mem)).map (scswEnded vdev) =
      (result (archRound env) n (execStart vdev iobuf mem)).map archEnded

/-- The loop's variables when the CCW has been fetched. -/
def Exec.fetched (s : Exec) : Exec := { s with addr := s.addr + 8, cnt := s.cnt + 1 }

/-- The valid command `ccw` from address `a` has command chaining and the device
ends it with channel end and device end. -/
def CommandChains (env : ExecEnv) (a : BitVec 32) (ccw : Ccw) (s : Exec) : Prop :=
  invalidCcw s.f s.cd ccw = false ∧ ccw.flags &&& ccwFlagCc ≠ 0 ∧
    ∃ s', execCcw env a ccw (archOperand env ccw true { s with tic2tic := false }) = some s' ∧
      s'.dev.devStatus = scStatusCe ||| scStatusDe

/-- The CCW at the address of `s` is a command that is chained to the next one. -/
def Chains (env : ExecEnv) (s : Exec) : Prop :=
  ∃ ccw, _getCcw env s.mem s.f s.addr = .ok ccw ∧ ccw.cmd ≠ ccwCmdTic ∧
    CommandChains env s.addr ccw s.fetched

/-- `s'` is `s` behind a valid TIC. -/
def TransfersTo (env : ExecEnv) (s s' : Exec) : Prop :=
  ∃ ccw, _getCcw env s.mem s.f s.addr = .ok ccw ∧ ccw.cmd = ccwCmdTic ∧
    archTic ccw s.fetched = .next s'

/-- The first command of the program, at the ORB's address or at the target of a
TIC there, is chained to the next one. -/
def FirstChains (env : ExecEnv) (s : Exec) : Prop :=
  Chains env s ∨ ∃ s', TransfersTo env s s' ∧ Chains env s'

/-- The operand of the command is accessible. -/
def OperandOk (env : ExecEnv) (a : BitVec 32) (ccw : Ccw) (s : Exec) : Prop :=
  (archOperand env ccw true { s with tic2tic := false }).schStatus = 0 ∧
    ∀ s', execCcw env a ccw (archOperand env ccw true { s with tic2tic := false }) = some s' →
      s'.dev.devStatus = scStatusCe ||| scStatusDe → (archOperand env ccw false s').schStatus = 0

/-- The operand accesses of a round that begins in `s` succeed. -/
def OperandsOk (env : ExecEnv) (s : Exec) : Prop :=
  ∀ ccw, _getCcw env s.mem s.f s.addr = .ok ccw → ccw.cmd ≠ ccwCmdTic →
    invalidCcw s.f s.cd ccw = false → OperandOk env s.addr ccw s.fetched

/-! ### One round -/

section Round

variable {env : ExecEnv} {s : Exec}

/-- A valid CCW does not ask for data chaining. -/
theorem flags_of_valid {f cd : Bool} {ccw : Ccw} (h : invalidCcw f cd ccw = false) :
    ccw.flags &&& (ccwFlagCd ||| ccwFlagCc) = ccw.flags &&& ccwFlagCc ∧
      ccw.flags &&& ccwFlagCd = 0 := by
  have hflags : ccw.flags &&& (ccwFlagSkp ||| ccwFlagPci ||| ccwFlagIda ||| ccwFlagS |||
      ccwFlagMida ||| ccwFlagCd) = 0 := by
    simp only [invalidCcw, Bool.or_eq_false_iff, decide_eq_false_iff_not, not_not] at h
    exact h.2
  have hcd : ccw.flags &&& ccwFlagCd = 0 := by
    have hsub : ccwFlagCd = (ccwFlagSkp ||| ccwFlagPci ||| ccwFlagIda ||| ccwFlagS |||
      ccwFlagMida ||| ccwFlagCd) &&& ccwFlagCd := by decide
    rw [hsub, ← BitVec.and_assoc, hflags]
    exact BitVec.zero_and
  refine ⟨?_, hcd⟩
  rw [BitVec.and_or_distrib_left, hcd]
  exact BitVec.zero_or

/-- The transfer of a CCW moves neither the channel program's address nor the chain-data mark.
-/
theorem xferStorage_frame (env : ExecEnv) (ccw : Ccw) (write : Bool) (s : Exec) :
    (_xferStorage env ccw write s).addr = s.addr ∧ (_xferStorage env ccw write s).cd = s.cd := by
  unfold _xferStorage
  by_cases hcount : ccw.count = 0
  · rw [if_pos hcount]
    exact ⟨rfl, rfl⟩
  · by_cases hsize : ccw.addr.toNat > env.storageSize
    · rw [if_neg hcount, if_pos hsize]
      exact ⟨rfl, rfl⟩
    · rw [if_neg hcount, if_neg hsize]
      exact ⟨rfl, rfl⟩

/-- The architecture's operand of a CCW moves neither of them. -/
theorem archOperand_frame (env : ExecEnv) (ccw : Ccw) (write : Bool) (s : Exec) :
    (archOperand env ccw write s).addr = s.addr ∧ (archOperand env ccw write s).cd = s.cd := by
  unfold archOperand
  split
  · exact xferStorage_frame env ccw write s
  · exact ⟨rfl, rfl⟩

/-- A command that runs leaves the address, the chain-data mark and the subchannel status as
they were. -/
theorem execCcw_frame {a : BitVec 32} {ccw : Ccw} {s' : Exec} (h : execCcw env a ccw s = some s') :
    s'.addr = s.addr ∧ s'.cd = s.cd ∧ s'.schStatus = s.schStatus := by
  obtain ⟨dev, _, rfl⟩ := Option.map_eq_some_iff.1 h
  exact ⟨rfl, rfl, rfl⟩

/-- A TIC does the same in both. -/
theorem spoolTic_eq (ccw : Ccw) (s : Exec) : spoolTic ccw s = archTic ccw s := by
  unfold spoolTic archTic
  by_cases htic : s.tic2tic = true
  · rw [if_pos htic, if_pos (Or.inl htic)]
  · by_cases hbad : s.f = true ∧ (ccw.flags ≠ 0 ∨ ccw.count ≠ 0)
    · rw [if_neg htic, if_pos hbad, if_pos (Or.inr hbad)]
    · rw [if_neg htic, if_neg hbad, if_neg (not_or.2 ⟨htic, hbad⟩)]

/-- **A command.**  The two differ only in where they go on if it is chained. -/
theorem spoolCommand_cases {a : BitVec 32} {ccw : Ccw} (hcd : s.cd = false)
    (hop : invalidCcw s.f s.cd ccw = false → OperandOk env a ccw s) :
    (CommandChains env a ccw s ∧ ∃ s' t, archCommand env a ccw s = .next s' ∧
      spoolCommand env a ccw s = .next t ∧ s'.addr = s.addr ∧
      t.addr = (s.addr + 8) &&& 0x7fffffff) ∨
    (¬ CommandChains env a ccw s ∧ (∀ t, spoolCommand env a ccw s ≠ .next t) ∧
      spoolCommand env a ccw s = archCommand env a ccw s) := by
  by_cases hinvalid : invalidCcw s.f s.cd ccw = true
  · have hcode : spoolCommand env a ccw s = .out { s with tic2tic := false }.progCheck :=
      if_pos hinvalid
    have harch : archCommand env a ccw s = .out { s with tic2tic := false }.progCheck :=
      if_pos (hcd ▸ hinvalid)
    refine Or.inr ⟨fun hchains => ?_, fun t ht => ?_, hcode.trans harch.symm⟩
    · rw [hchains.1] at hinvalid
      cases hinvalid
    · rw [hcode] at ht
      cases ht
  · have hvalid := Bool.eq_false_iff.2 hinvalid
    obtain ⟨hfetch, hstore⟩ := hop hvalid
    obtain ⟨hflags, _⟩ := flags_of_valid hvalid
    have hframe := archOperand_frame env ccw true { s with tic2tic := false }
    have hcode : spoolCommand env a ccw s = match execCcw env a ccw
        (archOperand env ccw true { s with tic2tic := false }) with
      | none => .stop
      | some s => spoolChain env ccw s := if_neg hinvalid
    have harch : archCommand env a ccw s = match execCcw env a ccw
        (archOperand env ccw true { s with tic2tic := false }) with
      | none => .stop
      | some s => archChain env ccw s :=
        (if_neg (hcd ▸ hinvalid)).trans (if_neg (not_not.2 hfetch))
    cases hexec : execCcw env a ccw (archOperand env ccw true { s with tic2tic := false }) with
    | none =>
      rw [hexec] at hcode harch
      refine Or.inr ⟨fun ⟨_, _, s', hs', _⟩ => ?_, fun t ht => ?_, hcode.trans harch.symm⟩
      · rw [hexec] at hs'
        cases hs'
      · rw [hcode] at ht
        cases ht
    | some s₁ =>
      rw [hexec] at hcode harch
      dsimp only at hcode harch
      have hframe₁ := execCcw_frame hexec
      by_cases hend : s₁.dev.devStatus = scStatusCe ||| scStatusDe
      · have hstored := hstore s₁ hexec hend
        have hframe₂ := archOperand_frame env ccw false s₁
        have hchain : spoolChain env ccw s₁ =
            if ccw.flags &&& (ccwFlagCd ||| ccwFlagCc) = 0 then .out (archOperand env ccw false s₁)
            else .next { archOperand env ccw false s₁ with
              cd := decide (ccw.flags &&& ccwFlagCd ≠ 0)
              addr := ((archOperand env ccw false s₁).addr + 8) &&& 0x7fffffff } :=
          if_neg (not_not.2 hend)
        have harchChain : archChain env ccw s₁ =
            if (archOperand env ccw false s₁).schStatus ≠ 0 ∨ ccw.flags &&& ccwFlagCc = 0 then
              .out (archOperand env ccw false s₁)
            else .next (archOperand env ccw false s₁) := if_neg (not_not.2 hend)
        rw [hchain, hflags] at hcode
        rw [harchChain] at harch
        by_cases hcc : ccw.flags &&& ccwFlagCc = 0
        · rw [if_pos hcc] at hcode
          rw [if_pos (Or.inr hcc)] at harch
          refine Or.inr ⟨fun hchains => hchains.2.1 hcc, fun t ht => ?_, hcode.trans harch.symm⟩
          rw [hcode] at ht
          cases ht
        · rw [if_neg hcc] at hcode
          rw [if_neg (not_or.2 ⟨not_not.2 hstored, hcc⟩)] at harch
          have haddr : (archOperand env ccw false s₁).addr = s.addr :=
            hframe₂.1.trans (hframe₁.1.trans hframe.1)
          exact Or.inl ⟨⟨hvalid, hcc, s₁, hexec, hend⟩, _, _, harch, hcode, haddr, by
            dsimp only
            rw [haddr]⟩
      · have hchain : spoolChain env ccw s₁ = .out s₁ := if_pos hend
        have harchChain : archChain env ccw s₁ = .out s₁ := if_pos hend
        rw [hchain] at hcode
        rw [harchChain] at harch
        refine Or.inr ⟨fun ⟨_, _, s', hs', hend'⟩ => ?_, fun t ht => ?_, hcode.trans harch.symm⟩
        · rw [hexec] at hs'
          obtain rfl := Option.some.inj hs'
          exact hend hend'
        · rw [hcode] at ht
          cases ht

/-- **One round.**  If the command is chained, the code goes on one CCW too far.
Else the code and the reference interpreter do the same: they follow a TIC, or
they end. -/
theorem spoolRound_cases (hstatus : s.schStatus = 0) (hcd : s.cd = false)
    (hop : OperandsOk env s) :
    (Chains env s ∧ ∃ s' t, archRound env s = .next s' ∧ spoolRound env s = .next t ∧
      s'.addr = s.addr + 8 ∧ t.addr = (s.addr + 8 + 8) &&& 0x7fffffff) ∨
    (¬ Chains env s ∧ ∃ s', TransfersTo env s s' ∧ spoolRound env s = .next s' ∧
      archRound env s = .next s') ∨
    (¬ Chains env s ∧ (∀ s', ¬ TransfersTo env s s') ∧ (∀ t, spoolRound env s ≠ .next t) ∧
      spoolRound env s = archRound env s) := by
  cases hget : _getCcw env s.mem s.f s.addr with
  | error schStatus =>
    have hcode : spoolRound env s =
        .out { s with addr := s.addr + 8, schStatus, cnt := s.cnt + 1 } := by
      rw [spoolRound, hget]
    have harch : archRound env s =
        .out { s with addr := s.addr + 8, schStatus, cnt := s.cnt + 1 } := by
      rw [archRound, hget]
    refine Or.inr (Or.inr ⟨?_, ?_, fun t ht => ?_, hcode.trans harch.symm⟩)
    · rintro ⟨ccw, hget', _⟩
      rw [hget] at hget'
      cases hget'
    · rintro s' ⟨ccw, hget', _⟩
      rw [hget] at hget'
      cases hget'
    · rw [hcode] at ht
      cases ht
  | ok ccw =>
    have hsame : ∀ {ccw'}, _getCcw env s.mem s.f s.addr = .ok ccw' → ccw' = ccw := fun hget' =>
      Except.ok.inj (hget'.symm.trans hget)
    have hcode : spoolRound env s = if ccw.cmd = ccwCmdTic then spoolTic ccw s.fetched
        else spoolCommand env s.addr ccw s.fetched := by
      rw [spoolRound, hget]
      exact if_neg (not_not.2 hstatus)
    have harch : archRound env s = if ccw.cmd = ccwCmdTic then archTic ccw s.fetched
        else archCommand env s.addr ccw s.fetched := by
      rw [archRound, hget]
      rfl
    by_cases htic : ccw.cmd = ccwCmdTic
    · have hno : ¬ Chains env s := by
        rintro ⟨ccw', hget', hcmd, _⟩
        obtain rfl := hsame hget'
        exact hcmd htic
      rw [if_pos htic] at hcode harch
      rw [spoolTic_eq] at hcode
      cases hnext : archTic ccw s.fetched with
      | next s' =>
        exact Or.inr (Or.inl ⟨hno, s', ⟨ccw, hget, htic, hnext⟩, hcode.trans hnext,
          harch.trans hnext⟩)
      | out s' =>
        refine Or.inr (Or.inr ⟨hno, ?_, fun t ht => ?_, hcode.trans harch.symm⟩)
        · rintro s'' ⟨ccw', hget', _, hnext'⟩
          obtain rfl := hsame hget'
          rw [hnext] at hnext'
          cases hnext'
        · rw [hcode, hnext] at ht
          cases ht
      | stop =>
        unfold archTic at hnext
        split at hnext <;> cases hnext
    · have hno : ∀ s', ¬ TransfersTo env s s' := by
        rintro s' ⟨ccw', hget', hcmd, _⟩
        obtain rfl := hsame hget'
        exact htic hcmd
      have hiff : Chains env s ↔ CommandChains env s.addr ccw s.fetched := by
        refine ⟨?_, fun hchains => ⟨ccw, hget, htic, hchains⟩⟩
        rintro ⟨ccw', hget', _, hchains⟩
        obtain rfl := hsame hget'
        exact hchains
      rw [if_neg htic] at hcode harch
      rw [hcode, harch, hiff]
      rcases spoolCommand_cases (s := s.fetched) hcd (hop ccw hget htic) with
        ⟨hchains, s', t, hs', ht, haddr, haddr'⟩ | ⟨hchains, hlast, heq⟩
      · exact Or.inl ⟨hchains, s', t, hs', ht, haddr, haddr'⟩
      · exact Or.inr (Or.inr ⟨hchains, hno, hlast, heq⟩)

end Round

/-- A command that reads nothing into storage has one operand access. -/
theorem operandOk_of_not_read {env : ExecEnv} {a : BitVec 32} {ccw : Ccw} {s : Exec}
    (hread : isCcwRead ccw.cmd = false)
    (hfetch : (archOperand env ccw true { s with tic2tic := false }).schStatus = 0) :
    OperandOk env a ccw s := by
  refine ⟨hfetch, fun s' hexec _ => ?_⟩
  have hsame : archOperand env ccw false s' = s' := by
    rw [archOperand, cond_false, hread, if_neg Bool.false_ne_true]
  rw [hsame, (execCcw_frame hexec).2.2, hfetch]

/-! ### The whole program -/

/-- Where the code goes on after chaining is not the next CCW. -/
theorem chain_addr_ne (addr : BitVec 32) :
    (addr + 8 + 8) &&& 0x7fffffff ≠ addr + 8 := by
  intro heq
  have hnat := congrArg BitVec.toNat heq
  rw [BitVec.toNat_and, show (0x7fffffff : BitVec 32).toNat = 2 ^ 31 - 1 by decide,
    Nat.and_two_pow_sub_one_eq_mod, BitVec.toNat_add, BitVec.toNat_add,
    show (8 : BitVec 32).toNat = 8 by decide] at hnat
  omega

/-- The SCSW has the statuses and the address of the loop's end. -/
theorem scswEnded_eq (vdev : VirtDevice) : scswEnded vdev = archEnded := by
  funext s
  simp (disch := decide) only [scswEnded, archEnded, execFinish, execStatus,
    Field.get_set_of_disjoint, Field.get_set]

/-- **When a channel program runs as architected.**  With operands that are
accessible, `spool_exec` fetches and executes the CCWs of the architected program
and stores its end, exactly if the first command of the program is not chained to
the next one. -/
theorem spoolExec_arch_iff (env : ExecEnv) (vdev : VirtDevice) (iobuf mem : ℕ → UInt8)
    (hop : ∀ s, Reaches (spoolRound env) (execStart vdev iobuf mem) s → OperandsOk env s) :
    RunsAsArchitected env vdev iobuf mem ↔ ¬ FirstChains env (execStart vdev iobuf mem) := by
  set s := execStart vdev iobuf mem
  -- at the start of the program and behind a TIC
  have hfirst := spoolRound_cases (s := s) rfl rfl (hop s Reaches.refl)
  have hsecond : ∀ s', TransfersTo env s s' → spoolRound env s = .next s' →
      (Chains env s' ∧ ∃ t' t, archRound env s' = .next t' ∧ spoolRound env s' = .next t ∧
        t'.addr = s'.addr + 8 ∧ t.addr = (s'.addr + 8 + 8) &&& 0x7fffffff) ∨
      (¬ Chains env s' ∧ (∀ t, spoolRound env s' ≠ .next t) ∧
        spoolRound env s' = archRound env s') := by
    rintro s' ⟨ccw, _, _, hnext⟩ hround
    unfold archTic at hnext
    split at hnext
    · cases hnext
    · obtain rfl := Round.next.inj hnext
      rcases spoolRound_cases rfl rfl (hop _ (Reaches.refl.next hround)) with
        hchains | ⟨_, t, ⟨ccw', _, _, htic⟩, _⟩ | ⟨hno, _, hlast, heq⟩
      · exact Or.inl hchains
      · exact absurd ((if_pos (Or.inl rfl)).symm.trans htic) (by simp)
      · exact Or.inr ⟨hno, hlast, heq⟩
  constructor
  · intro hruns hchain
    rcases hfirst with ⟨_, s', t, hs', ht, haddr, haddr'⟩ | ⟨hno, s', htransfer, hs', hs''⟩ |
      ⟨hno, hnotic, _⟩
    · have htrace := (hruns 2).1
      rw [trace_next ht, trace_next hs'] at htrace
      have hview := congrArg (fun l => l.map Prod.fst) htrace
      simp only [trace, List.map_cons, roundView, List.cons.injEq, true_and, haddr,
        haddr'] at hview
      exact chain_addr_ne s.addr hview.1
    · rcases hsecond s' htransfer hs' with ⟨_, t', t, ht', ht, haddr, haddr'⟩ | ⟨hno', _⟩
      · have htrace := (hruns 3).1
        rw [trace_next hs', trace_next hs'', trace_next ht, trace_next ht'] at htrace
        have hview := congrArg (fun l => l.map Prod.fst) htrace
        simp only [trace, List.map_cons, roundView, List.cons.injEq, true_and, haddr,
          haddr'] at hview
        exact chain_addr_ne s'.addr hview.1
      · rcases hchain with hchains | ⟨s'', ⟨ccw', hget', _, hnext'⟩, hchains⟩
        · exact hno hchains
        · obtain ⟨ccw, hget, _, hnext⟩ := htransfer
          obtain rfl := Except.ok.inj (hget.symm.trans hget')
          obtain rfl := Round.next.inj (hnext.symm.trans hnext')
          exact hno' hchains
    · rcases hchain with hchains | ⟨s', htransfer, _⟩
      · exact hno hchains
      · exact hnotic s' htransfer
  · intro hno n
    have hagree : ∀ n, trace (spoolRound env) n s = trace (archRound env) n s ∧
        result (spoolRound env) n s = result (archRound env) n s := by
      rcases hfirst with ⟨hchains, _⟩ | ⟨_, s', htransfer, hs', hs''⟩ | ⟨_, _, hlast, heq⟩
      · exact absurd (Or.inl hchains) hno
      · rcases hsecond s' htransfer hs' with ⟨hchains, _⟩ | ⟨_, hlast, heq⟩
        · exact absurd (Or.inr ⟨s', htransfer, hchains⟩) hno
        · exact agree_of_next hs' hs'' (agree_of_last heq hlast)
      · exact agree_of_last heq hlast
    rw [(hagree n).1, (hagree n).2, scswEnded_eq]
    exact ⟨rfl, rfl⟩

/-- A console whose ORB has format 1 and address 0, in a guest of 1MB that is
mapped to itself. -/
def consVdev : VirtDevice := ⟨.cons, 0x10000, none, some spoolConsOps, 0, 0, 0, orbF.set 1 0⟩

/-- The examples' machine: 1 MB of storage mapped to itself, a spooled console, and a page for
its file. -/
def consEnv : ExecEnv :=
  ⟨fun page => some page, 0x100000, some spoolConsOps, fun _ => ⟨true, [some ⟨4096, fun _ => 0⟩],
    fun _ => 0⟩⟩

/-- A TIC at 0 to 16, where a write of the byte at 0x40 is. -/
def ticWriteStorage (a : ℕ) : UInt8 :=
  (([(0, 0x08), (7, 16), (16, 0x01), (19, 1), (23, 0x40), (0x40, 0xc1)] :
    List (ℕ × UInt8)).lookup a).getD 0

/-- **A TIC and a write that the console accepts** run as the architecture says: the command
behind the TIC is the last of its program. -/
theorem spoolExec_arch_tic : RunsAsArchitected consEnv consVdev (fun _ => 0) ticWriteStorage ∧
    (result (spoolRound consEnv) 2 (execStart consVdev (fun _ => 0) ticWriteStorage)).map
      (fun s => (s.executed, s.schStatus, s.dev.devStatus)) =
        some ([(16, ⟨0x01, 0, 1, 0x40⟩)], 0, scStatusCe ||| scStatusDe) := by
  refine ⟨?_, by decide +kernel⟩
  let s := execStart consVdev (fun _ => 0) ticWriteStorage
  let t : Exec := { s with addr := 16, cnt := 1, tic2tic := true }
  have hget : _getCcw consEnv ticWriteStorage true 0 = .ok ⟨0x08, 0, 0, 16⟩ := by decide +kernel
  have hget' : _getCcw consEnv ticWriteStorage true 16 = .ok ⟨0x01, 0, 1, 0x40⟩ := by
    decide +kernel
  have hround : spoolRound consEnv s = .next t := by
    unfold spoolRound
    rw [show _getCcw consEnv s.mem s.f s.addr = _ from hget]
    rfl
  have hend : (result (spoolRound consEnv) 1 t).isSome := by decide +kernel
  refine (spoolExec_arch_iff consEnv consVdev _ _ fun u hreach => ?_).2 ?_
  · rcases hreach.first with rfl | ⟨t', hround', hreach'⟩
    · intro ccw hccw htic _
      obtain rfl := Except.ok.inj (hget.symm.trans hccw)
      exact absurd rfl htic
    · obtain rfl := Round.next.inj (hround.symm.trans hround')
      rw [hreach'.eq_of_result hend]
      intro ccw hccw _ _
      obtain rfl := Except.ok.inj (hget'.symm.trans hccw)
      exact operandOk_of_not_read (by decide) (by decide +kernel)
  · rintro (⟨ccw, hccw, htic, -⟩ | ⟨t', ⟨ccw, hccw, -, hnext⟩, ccw', hccw', -, -, hcc, -⟩)
    · obtain rfl := Except.ok.inj (hget.symm.trans hccw)
      exact htic rfl
    · obtain rfl := Except.ok.inj (hget.symm.trans hccw)
      obtain rfl : t = t' := Round.next.inj hnext
      obtain rfl := Except.ok.inj (hget'.symm.trans hccw')
      exact hcc (by decide)

/-- A write with command chaining at 0: the code goes on at 16, not at 8, for the address is
moved on twice. -/
theorem spoolExec_skips :
    (∀ s, Reaches (spoolRound consEnv) (execStart consVdev (fun _ => 0) fun a =>
        if a = 0 ∨ a = 3 then 1 else if a = 1 then 0x40 else 0) s → OperandsOk consEnv s) ∧
      ¬ RunsAsArchitected consEnv consVdev (fun _ => 0) fun a =>
        if a = 0 ∨ a = 3 then 1 else if a = 1 then 0x40 else 0 := by
  constructor
  · intro s hreach
    rcases hreach.first with rfl | ⟨t, hround, hreach'⟩
    · have hget : _getCcw consEnv (fun a => if a = 0 ∨ a = 3 then 1 else if a = 1 then 0x40 else 0)
          true 0 = .ok ⟨1, 0x40, 1, 0⟩ := by decide +kernel
      intro ccw hget' _ _
      obtain rfl := Except.ok.inj (hget.symm.trans hget')
      exact operandOk_of_not_read (by decide) (by decide +kernel)
    · -- the CCW at 16 is all zero
      have hsecond : (match spoolRound consEnv (execStart consVdev (fun _ => 0) fun a =>
            if a = 0 ∨ a = 3 then 1 else if a = 1 then 0x40 else 0) with
          | .next t => (_getCcw consEnv t.mem t.f t.addr, t.cd,
              (result (spoolRound consEnv) 1 t).isSome)
          | _ => (.error 0, true, false)) = (.ok ⟨0, 0, 0, 0⟩, false, true) := by
        decide +kernel
      rw [hround] at hsecond
      obtain ⟨hget, hsecond⟩ := Prod.mk.inj hsecond
      obtain ⟨hcd, hend⟩ := Prod.mk.inj hsecond
      rw [hreach'.eq_of_result hend]
      intro ccw hget' _ hvalid
      obtain rfl := Except.ok.inj (hget.symm.trans hget')
      rw [hcd] at hvalid
      cases hf : t.f <;> rw [hf] at hvalid <;> exact absurd hvalid (by decide)
  · intro hruns
    have hviews : ((trace (spoolRound consEnv) 2 (execStart consVdev (fun _ => 0) fun a =>
          if a = 0 ∨ a = 3 then 1 else if a = 1 then 0x40 else 0)).map roundView).map Prod.fst =
        [0, 16] := by decide +kernel
    have harch : ((trace (archRound consEnv) 2 (execStart consVdev (fun _ => 0) fun a =>
          if a = 0 ∨ a = 3 then 1 else if a = 1 then 0x40 else 0)).map roundView).map Prod.fst =
        [0, 8] := by decide +kernel
    rw [(hruns 2).1, harch] at hviews
    exact absurd hviews (by decide)

end Hvf
