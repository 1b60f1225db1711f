/-
# Operands that cannot be fetched

`spool_exec` of `cp/drivers/spooldev.c` again, with the messages of
`cp/drivers/spooldev_cons.c`.  Where the operand of a write command cannot be fetched,
`__xfer_storage` sets the subchannel status and returns 0, so the command is given to the
device all the same.  It notices only the address and the first page of the operand.
And `cons_write` prints `errstrings[ret]` for a `ret` that is negative.

A round is as it should be exactly where no operand of the console's write command is
lost, every other one is noticed, and the console has no error (`spool_operand_iff`).
-/

import Hvf.Fs.SpoolAppend
import Hvf.Guest.ChannelProgram
import Hvf.Mm.GuestCopyExact

namespace Hvf

open BitField Rounds

/-! ### Messages -/

/-- `errstrings`. -/
def errstrings : List String :=
  ["Success", "Out of memory", "Resource busy", "Try again", "Invalid argument",
    "File already exists", "No such file", "?", "?", "Invalid memory reference",
    "Permission denied", "Curruption detected", "I/O error"]

/-- The numbers for which `cons_write` prints the entry of `errstrings`. -/
def consErrors (e : DevEnv) (ccw : Ccw) (iobuf : ℕ → UInt8) (d : SpDev) : List Int :=
  if ccw.cmd ≠ 0x01 then []
  else
    match openSpoolfile e d.file with
    | none => [-enomem]
    | some file =>
      match spoolAppendRec file (bufAround e.before iobuf) (min ccw.count.toNat 150) e.supply with
      | none => []
      | some a => if a.ret ≠ 0 then [a.ret] else []

/-! ### A round -/

/-- `vdev->u.spool.ops`, which is `spool_cons_ops` or `NULL`. -/
def vdevOps (console : Bool) : Option SpoolOps := if console then some spoolConsOps else none

/-- The environment of a device that is a console or not. -/
def ExecEnv.withOps (env : ExecEnv) (console : Bool) : ExecEnv :=
  { env with ops := vdevOps console }

/-- **The round that begins in `s` comes to the command `ccw`**: the CCW is fetched, no
status is set before, and it is no TIC. -/
structure HasCommand (env : ExecEnv) (s : Exec) (ccw : Ccw) : Prop where
  get : _getCcw env s.mem s.f s.addr = .ok ccw
  status : s.schStatus = 0
  noTic : ccw.cmd ≠ ccwCmdTic

/-- The loop's variables when the device gets the command. -/
def Exec.given (env : ExecEnv) (ccw : Ccw) (s : Exec) : Exec :=
  let s := { s.fetched with tic2tic := false }
  if isCcwWrite ccw.cmd then _xferStorage env ccw true s else s

/-- A byte of the operand lies outside guest storage or in a page that fails
translation. -/
def OperandLost (env : ExecEnv) (ccw : Ccw) : Prop :=
  ∃ i < ccw.count.toNat, env.storageSize ≤ ccw.addr.toNat + i ∨
    env.frames ((ccw.addr.toNat + i) / pageSize) = none

/-- **The round executes nothing and is the last one, and the status says why**: the file is
as it was, and the status word has the check with the alert. -/
structure EndsUnexecuted (env : ExecEnv) (vdev : VirtDevice) (s : Exec) (s' : Exec) : Prop where
  ends : spoolRound env s = .out s'
  file : s'.dev.file = s.dev.file
  check : s'.schStatus = scProgChk ∨ s'.schStatus = scProtChk
  status : scswSchStatus.get (execFinish s' vdev).scsw = s'.schStatus
  alert : scswSc.get (execFinish s' vdev).scsw &&& scAlert ≠ 0

/-- **What a round ought to do.** A command whose operand is lost is not executed, and every
message of the console that is printed for an error has its text. -/
structure RoundRight (console : Bool) (env : ExecEnv) (vdev : VirtDevice) (s : Exec) (ccw : Ccw) :
    Prop where
  operand : isCcwWrite ccw.cmd = true → OperandLost env ccw →
    ∃ s', EndsUnexecuted (env.withOps console) vdev s s'
  messages : console = true → invalidCcw s.f s.cd ccw = false →
    ∀ ret ∈ consErrors (env.dev (s.cnt + 1)) ccw (s.given env ccw).iobuf (s.given env ccw).dev,
      0 ≤ ret ∧ ret < errstrings.length

/-- `__xfer_storage` finds the address outside of storage, or its page not mapped. -/
def OperandNoticed (env : ExecEnv) (ccw : Ccw) : Prop :=
  env.storageSize < ccw.addr.toNat ∨ env.frames (ccw.addr.toNat / pageSize) = none

/-- The file is open or can be, and there is a page for a record that does not fit in the
last one.  A file with an odd `lrecoff` ends in a `BUG_ON`. -/
structure CanAppend (e : DevEnv) (ccw : Ccw) (file : Option SpoolFile) : Prop where
  opens : file ≠ none ∨ e.spoolAlloc = true
  count : ccw.count ≠ 0
  page : (file.getD allocSpool).lrecoff % 2 ≠ 0 ∨
    lastCopied (file.getD allocSpool) (min ccw.count.toNat 150) = min ccw.count.toNat 150 + 2 ∨
    ∃ spage, e.supply.head? = some (some spage)

/-- The command is not the console's write with a lost operand, the loss of another one
is noticed, and the console can append. -/
structure CommandSafe (console : Bool) (env : ExecEnv) (s : Exec) (ccw : Ccw) : Prop where
  operand : isCcwWrite ccw.cmd = true → OperandLost env ccw →
    ¬ (console = true ∧ ccw.cmd = 0x01) ∧ OperandNoticed env ccw
  append : console = true → ccw.cmd = 0x01 → CanAppend (env.dev (s.cnt + 1)) ccw s.dev.file

/-- The CCW is invalid, or the command is safe. -/
def RoundSafe (console : Bool) (env : ExecEnv) (s : Exec) (ccw : Ccw) : Prop :=
  invalidCcw s.f s.cd ccw = true ∨ CommandSafe console env s ccw

section

variable {env : ExecEnv} {s : Exec} {ccw : Ccw}

/-! ### The fetch -/

/-- A fetch leaves the file of the device. -/
theorem given_dev (env : ExecEnv) (ccw : Ccw) (s : Exec) :
    (s.given env ccw).dev.file = s.dev.file ∧ (s.given env ccw).cnt = s.cnt + 1 := by
  unfold Exec.given
  dsimp only
  split
  · unfold _xferStorage
    split_ifs
    · exact ⟨rfl, rfl⟩
    · exact ⟨rfl, rfl⟩
    · exact ⟨rfl, rfl⟩
  · exact ⟨rfl, rfl⟩

/-- A command that loses its operand has one: its count is not 0. -/
theorem OperandLost.count (h : OperandLost env ccw) : ccw.count ≠ 0 := by
  obtain ⟨i, hi, -⟩ := h
  rintro hzero
  rw [hzero] at hi
  exact absurd hi (Nat.not_lt_zero _)

/-- A copy fails where the first page is not mapped. -/
theorem memcpyTofromGuest_ret (frames : ℕ → Option ℕ) (g : ℕ) {n : ℕ} (hn : n ≠ 0)
    (fromGuest : Bool) (mem data : ℕ → UInt8) :
    (memcpyTofromGuest frames g n fromGuest mem data).ret ≠ 0 ↔ frames (g / pageSize) = none := by
  rw [pageSize_eq]
  cases hvirt : virt2phyCurrent frames g with
  | none =>
    have hnone := virt2phyCurrent_eq_none.1 hvirt
    refine iff_of_true ?_ hnone
    rw [memcpyTofromGuest, copyLoop, dif_neg hn, hvirt]
    show -efault ≠ 0
    decide
  | some a =>
    have hsome := (virt2phyCurrent_eq_some.1 hvirt).1
    refine iff_of_false ?_ ?_
    · rw [memcpyTofromGuest, (copyLoop_ret hvirt fromGuest n 0 mem data).1]
      exact fun hne => hne rfl
    · rw [hsome]
      exact Option.some_ne_none _

/-- **What `__xfer_storage` notices** of an operand. -/
theorem given_status (hwrite : isCcwWrite ccw.cmd = true) (hcount : ccw.count ≠ 0)
    (hstatus : s.schStatus = 0) :
    (OperandNoticed env ccw → (s.given env ccw).schStatus = scProgChk ∨
      (s.given env ccw).schStatus = scProtChk) ∧
    (¬ OperandNoticed env ccw → (s.given env ccw).schStatus = 0) := by
  have hlen : ccw.count.toNat ≠ 0 := fun hzero => hcount (BitVec.eq_of_toNat_eq hzero)
  unfold Exec.given _xferStorage OperandNoticed
  dsimp only
  rw [if_pos hwrite, if_neg hcount]
  by_cases hsize : ccw.addr.toNat > env.storageSize
  · rw [if_pos hsize]
    exact ⟨fun _ => Or.inl rfl, fun hnot => absurd (Or.inl hsize) hnot⟩
  · rw [if_neg hsize]
    have hret := memcpyTofromGuest_ret env.frames ccw.addr.toNat hlen true s.mem s.iobuf
    constructor
    · rintro (hlt | hnone)
      · exact absurd hlt hsize
      · exact Or.inr (if_pos (hret.2 hnone))
    · intro hnot
      exact (if_neg fun hne => hnot (Or.inr (hret.1 hne))).trans hstatus

/-! ### The end -/

/-- Where a program ends with a status, it is reported. -/
theorem execFinish_alert (vdev : VirtDevice) {s' : Exec} (h : s'.schStatus ≠ 0) :
    scswSchStatus.get (execFinish s' vdev).scsw = s'.schStatus ∧
      scswSc.get (execFinish s' vdev).scsw &&& scAlert ≠ 0 := by
  unfold execFinish execStatus
  dsimp only
  rw [if_pos (Or.inl h)]
  simp (disch := decide) only [Field.get_set_of_disjoint, Field.get_set]
  have halert : ∀ x : BitVec 5, (x ||| scAlert) &&& scAlert ≠ 0 := by decide
  exact ⟨trivial, halert _⟩

/-- A round that is the last one, with a status. -/
theorem EndsUnexecuted.of_out {vdev : VirtDevice} {s' : Exec} (hround : spoolRound env s = .out s')
    (hfile : s'.dev.file = s.dev.file)
    (hcheck : s'.schStatus = scProgChk ∨ s'.schStatus = scProtChk) :
    EndsUnexecuted env vdev s s' := by
  have hne : s'.schStatus ≠ 0 := by
    rcases hcheck with hcheck | hcheck
    · rw [hcheck]
      decide
    · rw [hcheck]
      decide
  obtain ⟨hstatus, halert⟩ := execFinish_alert vdev hne
  exact ⟨hround, hfile, hcheck, hstatus, halert⟩

/-! ### The command -/

/-- A console has one command. -/
theorem deviceCommand_ops (env : ExecEnv) (s : Exec) :
    deviceCommand (env.withOps true) ccw s =
      (if ccw.cmd.setWidth 4 = 1 then some consWrite else none).elim
        (some (spooldevCmdrej s.dev)) fun handler => handler (env.dev s.cnt) ccw s.iobuf s.dev := by
  have hops : ((env.withOps true).ops.bind fun ops => ops (ccw.cmd.setWidth 4)) =
      if ccw.cmd.setWidth 4 = 1 then some consWrite else none := rfl
  rw [deviceCommand, hops]
  split_ifs
  · rfl
  · rfl

/-- The exit of a command that the device does not have. -/
theorem deviceCommand_rejects {console : Bool} (h : ¬ (console = true ∧ ccw.cmd = 0x01))
    (env : ExecEnv) (s : Exec) :
    ∃ d, deviceCommand (env.withOps console) ccw s = some d ∧ d.file = s.dev.file ∧
      d.devStatus ≠ scStatusCe ||| scStatusDe := by
  cases console with
  | false => exact ⟨_, rfl, rfl, by show scStatusCe ||| scStatusDe ||| scStatusUc ≠ _; decide⟩
  | true =>
    have hcmd : ccw.cmd ≠ 0x01 := fun heq => h ⟨rfl, heq⟩
    by_cases hfour : ccw.cmd.setWidth 4 = 1
    · refine ⟨consCmdrej { s.dev with devStatus := scStatusCe ||| scStatusDe }, ?_, rfl, ?_⟩
      · rw [deviceCommand_ops, if_pos hfour, Option.elim_some, consWrite]
        exact if_pos hcmd
      · show scStatusCe ||| scStatusDe ||| scStatusUc ≠ _
        decide
    · refine ⟨spooldevCmdrej s.dev, ?_, rfl, ?_⟩
      · rw [deviceCommand_ops, if_neg hfour, Option.elim_none]
      · show scStatusCe ||| scStatusDe ||| scStatusUc ≠ _
        decide

/-- The console's write command. -/
theorem deviceCommand_write (hcmd : ccw.cmd = 0x01) (env : ExecEnv) (s : Exec) :
    deviceCommand (env.withOps true) ccw s = consWrite (env.dev s.cnt) ccw s.iobuf s.dev := by
  rw [deviceCommand_ops, hcmd, if_pos (by decide), Option.elim_some]

/-! ### The append -/

/-- A record is added, or there is an error number. -/
theorem spoolAppendRec_ret {f : SpoolFile} {buf : ℤ → UInt8} {len : ℕ}
    {supply : List (Option SpoolPage)} {a : AppendResult}
    (h : spoolAppendRec f buf len supply = some a) :
    a.ret = 0 ∧ a.file.recs = f.recs + 1 ∨ a.ret < 0 := by
  unfold spoolAppendRec at h
  split_ifs at h with hlen hodd
  · obtain rfl := Option.some.inj h
    exact Or.inr (show -einval < 0 by decide)
  · dsimp only at h
    split_ifs at h
    split at h
    · obtain rfl := Option.some.inj h
      exact Or.inl ⟨rfl, rfl⟩
    · obtain rfl := Option.some.inj h
      exact Or.inr (show -enomem < 0 by decide)

/-- What goes into the last page is at most the record with its length. -/
theorem fillLastPage_lastCopied (f : SpoolFile) (buf : ℤ → UInt8) (len : ℕ) :
    (fillLastPage f buf len).2.1 = lastCopied f len ∧ lastCopied f len ≤ len + 2 := by
  unfold fillLastPage lastCopied
  rw [spoolDataSize_eq]
  dsimp only
  by_cases hroom : f.pages ≠ 0 ∧ f.lrecoff + 2 ≤ 4080
  · rw [if_pos hroom, if_pos ⟨hroom.1, by omega⟩]
    dsimp only
    omega
  · rw [if_neg hroom, if_neg fun h => hroom ⟨h.1, by omega⟩]
    exact ⟨rfl, Nat.zero_le _⟩

/-- One page at most is needed for a record of the console. -/
theorem newPages_short (buf : ℤ → UInt8) {len copied : ℕ} (hlen : len ≤ 150)
    (hle : copied ≤ len + 2) (supply : List (Option SpoolPage)) (loff : ℕ) :
    (∃ r, newPages buf len supply copied loff [] = .ok r) ↔
      copied = len + 2 ∨ ∃ spage, supply.head? = some (some spage) := by
  by_cases hdone : copied = len + 2
  · rw [hdone, newPages_done]
    exact iff_of_true ⟨_, rfl⟩ (Or.inl rfl)
  · have hne : len + 2 ≠ copied := Ne.symm hdone
    rw [or_iff_right hdone]
    cases supply with
    | nil =>
      rw [newPages, if_neg hne]
      refine iff_of_false ?_ ?_
      · rintro ⟨_, h⟩
        cases h
      · rintro ⟨_, h⟩
        cases h
    | cons page supply =>
      cases page with
      | none =>
        rw [newPages, if_neg hne]
        refine iff_of_false ?_ ?_
        · rintro ⟨_, h⟩
          cases h
        · rintro ⟨_, h⟩
          cases h
      | some spage =>
        have hfilled : copied + (fillNewPage buf len copied spage).2 = len + 2 := by
          unfold fillNewPage
          rw [spoolDataSize_eq]
          split
          · dsimp only
            omega
          · dsimp only
            omega
        rw [newPages_cons hne, hfilled, newPages_done]
        exact iff_of_true ⟨_, rfl⟩ ⟨spage, rfl⟩

/-- A record of up to 150 bytes needs at most one page, and is appended exactly when there is
room or a page. -/
theorem spoolAppendRec_page (f : SpoolFile) (buf : ℤ → UInt8) {len : ℕ}
    (supply : List (Option SpoolPage)) (hpos : len ≠ 0) (hlen : len ≤ 150)
    (heven : f.lrecoff % 2 = 0) :
    ∃ a, spoolAppendRec f buf len supply = some a ∧ (a.ret = 0 ↔
      lastCopied f len = len + 2 ∨ ∃ spage, supply.head? = some (some spage)) := by
  obtain ⟨hcopied, hle⟩ := fillLastPage_lastCopied f buf len
  obtain ⟨list, copied, loff, hfill⟩ : ∃ list copied loff,
      fillLastPage f buf len = (list, copied, loff) := ⟨_, _, _, rfl⟩
  rw [hfill] at hcopied
  dsimp only at hcopied
  have hpages := newPages_short buf hlen (hcopied ▸ hle) supply loff
  rw [spoolAppendRec, if_neg hpos, if_neg (not_not.2 heven), hfill]
  dsimp only
  rw [if_neg (by omega), ← hcopied]
  cases hnew : newPages buf len supply copied loff [] with
  | ok r => exact ⟨_, rfl, iff_of_true rfl (hpages.1 ⟨r, hnew⟩)⟩
  | error pages =>
    refine ⟨_, rfl, iff_of_false (show -enomem ≠ 0 by decide) fun h => ?_⟩
    obtain ⟨r, hok⟩ := hpages.2 h
    rw [hnew] at hok
    cases hok

/-! ### Messages -/

/-- No message has a text. -/
theorem consErrors_neg {e : DevEnv} {iobuf : ℕ → UInt8} {d : SpDev} :
    ∀ ret ∈ consErrors e ccw iobuf d, ret < 0 := by
  intro ret hret
  unfold consErrors at hret
  split_ifs at hret
  · exact absurd hret List.not_mem_nil
  · split at hret
    · rw [List.mem_singleton.1 hret]
      decide
    · split at hret
      · exact absurd hret List.not_mem_nil
      case h_2 a ha =>
        split_ifs at hret with hne
        · rw [List.mem_singleton.1 hret]
          exact (spoolAppendRec_ret ha).resolve_left fun hzero => hne hzero.1
        · exact absurd hret List.not_mem_nil

/-- The messages about an append. -/
theorem appendErrors_eq_nil (f : SpoolFile) (buf : ℤ → UInt8) (n : ℕ)
    (supply : List (Option SpoolPage)) :
    (match spoolAppendRec f buf (min n 150) supply with
      | none => []
      | some a => if a.ret ≠ 0 then [a.ret] else []) = [] ↔
    n ≠ 0 ∧ (f.lrecoff % 2 ≠ 0 ∨ lastCopied f (min n 150) = min n 150 + 2 ∨
      ∃ spage, supply.head? = some (some spage)) := by
  by_cases hn : n = 0
  · subst hn
    refine iff_of_false ?_ fun h => h.1 rfl
    rw [spoolAppendRec, if_pos (Nat.zero_min _)]
    exact List.cons_ne_nil _ _
  · have hpos : min n 150 ≠ 0 := by omega
    rw [and_iff_right hn]
    by_cases hodd : f.lrecoff % 2 ≠ 0
    · rw [spoolAppendRec, if_neg hpos, if_pos hodd]
      exact iff_of_true rfl (Or.inl hodd)
    · obtain ⟨a, ha, hret⟩ := spoolAppendRec_page f buf supply hpos (Nat.min_le_right _ _)
        (not_not.1 hodd)
      rw [ha, or_iff_right hodd, ← hret]
      dsimp only
      by_cases hzero : a.ret = 0
      · rw [if_neg (not_not.2 hzero)]
        exact iff_of_true rfl hzero
      · rw [if_pos hzero]
        exact iff_of_false (List.cons_ne_nil _ _) hzero

/-- **There is no message exactly when** the console can append. -/
theorem consErrors_eq_nil (e : DevEnv) (iobuf : ℕ → UInt8) (d : SpDev) (hcmd : ccw.cmd = 0x01) :
    consErrors e ccw iobuf d = [] ↔ CanAppend e ccw d.file := by
  have hcount : ccw.count ≠ 0 ↔ ccw.count.toNat ≠ 0 :=
    not_congr ⟨fun h => congrArg BitVec.toNat h, fun h => BitVec.eq_of_toNat_eq h⟩
  have happend := fun f => appendErrors_eq_nil f (bufAround e.before iobuf) ccw.count.toNat e.supply
  rw [consErrors, if_neg (not_not.2 hcmd)]
  cases hfile : d.file with
  | some f =>
    show (match spoolAppendRec f _ _ _ with | none => [] | some a => _) = [] ↔ _
    rw [happend f]
    constructor
    · rintro ⟨hn, hpage⟩
      exact ⟨Or.inl (Option.some_ne_none f), hcount.2 hn, hpage⟩
    · rintro ⟨-, hn, hpage⟩
      exact ⟨hcount.1 hn, hpage⟩
  | none =>
    cases halloc : e.spoolAlloc with
    | false =>
      rw [openSpoolfile, halloc]
      refine iff_of_false (List.cons_ne_nil _ _) fun h => ?_
      rcases h.opens with hopen | hopen
      · exact hopen rfl
      · exact Bool.false_ne_true (halloc.symm.trans hopen)
    | true =>
      rw [openSpoolfile, halloc]
      show (match spoolAppendRec allocSpool _ _ _ with | none => [] | some a => _) = [] ↔ _
      rw [happend allocSpool]
      constructor
      · rintro ⟨hn, hpage⟩
        exact ⟨Or.inr halloc, hcount.2 hn, hpage⟩
      · rintro ⟨-, hn, hpage⟩
        exact ⟨hcount.1 hn, hpage⟩

/-- **The console's write** without a message changes the file. -/
theorem consWrite_file {e : DevEnv} {iobuf : ℕ → UInt8} {d d' : SpDev} (hcmd : ccw.cmd = 0x01)
    (hnone : consErrors e ccw iobuf d = []) (h : consWrite e ccw iobuf d = some d') :
    d'.file ≠ d.file := by
  rw [consErrors, if_neg (not_not.2 hcmd)] at hnone
  rw [consWrite] at h
  dsimp only at h
  rw [if_neg (not_not.2 hcmd)] at h
  cases hopen : openSpoolfile e d.file with
  | none =>
    rw [hopen] at hnone
    exact absurd hnone (List.cons_ne_nil _ _)
  | some file =>
    rw [hopen] at hnone h
    obtain ⟨a, ha, hd'⟩ := Option.bind_eq_some_iff.1 h
    dsimp only at hnone
    rw [ha] at hnone
    dsimp only at hnone
    by_cases hret : a.ret = 0
    · rw [if_neg (not_not.2 hret)] at hd'
      obtain rfl := Option.some.inj hd'
      have hrecs := ((spoolAppendRec_ret ha).resolve_right (by omega)).2
      intro heq
      rw [← heq] at hopen
      obtain rfl := Option.some.inj hopen
      omega
    · rw [if_pos hret] at hnone
      exact absurd hnone (List.cons_ne_nil _ _)

/-! ### Rounds -/

/-- The round of a command of a device. -/
theorem spoolRound_command {env : ExecEnv} (h : HasCommand env s ccw) :
    spoolRound env s = if invalidCcw s.f s.cd ccw then
        .out { s.fetched with tic2tic := false }.progCheck
      else match execCcw env s.addr ccw (s.given env ccw) with
        | none => .stop
        | some s => spoolChain env ccw s := by
  rw [spoolRound, h.get]
  dsimp only
  rw [if_neg (not_not.2 h.status), if_neg h.noTic, spoolCommand]
  rfl

/-- A write command is no read command. -/
theorem isCcwRead_of_write (h : isCcwWrite ccw.cmd = true) : isCcwRead ccw.cmd = false := by
  rw [isCcwWrite, decide_eq_true_eq] at h
  rw [isCcwRead, h]
  decide

/-- The last round of a write command ends as the device left it. -/
theorem spoolChain_out {s' : Exec} (hwrite : isCcwWrite ccw.cmd = true)
    (h : spoolChain env ccw s = .out s') : s' = s := by
  unfold spoolChain at h
  rw [isCcwRead_of_write hwrite, if_neg Bool.false_ne_true] at h
  dsimp only at h
  split_ifs at h
  · exact (Round.out.inj h).symm
  · exact (Round.out.inj h).symm

/-- The console's write with a message or a lost operand that is noticed. -/
theorem EndsUnexecuted.exec {console : Bool} {vdev : VirtDevice} {s' : Exec}
    (h : EndsUnexecuted (env.withOps console) vdev s s') (hcmd : HasCommand env s ccw)
    (hwrite : isCcwWrite ccw.cmd = true) (hvalid : ¬ invalidCcw s.f s.cd ccw = true) :
    ∃ d, deviceCommand (env.withOps console) ccw (s.given env ccw) = some d ∧
      d.file = s.dev.file ∧ s'.schStatus = (s.given env ccw).schStatus := by
  have hround := h.ends
  have hcmd' : HasCommand (env.withOps console) s ccw := ⟨hcmd.get, hcmd.status, hcmd.noTic⟩
  rw [spoolRound_command hcmd', if_neg hvalid] at hround
  cases hdev : deviceCommand (env.withOps console) ccw (s.given env ccw) with
  | none =>
    have hexec : execCcw (env.withOps console) s.addr ccw (s.given (env.withOps console) ccw)
        = none := congrArg (Option.map _) hdev
    rw [hexec] at hround
    exact nomatch hround
  | some d =>
    have hexec : execCcw (env.withOps console) s.addr ccw (s.given (env.withOps console) ccw)
        = some { s.given env ccw with
            dev := d, executed := (s.given env ccw).executed ++ [(s.addr, ccw)] } :=
      congrArg (Option.map _) hdev
    rw [hexec] at hround
    obtain rfl := spoolChain_out hwrite hround
    exact ⟨d, rfl, h.file, rfl⟩

/-- **A round is right exactly when** it is safe. -/
theorem roundRight_iff (console : Bool) (env : ExecEnv) (vdev : VirtDevice)
    (h : HasCommand env s ccw) :
    RoundRight console env vdev s ccw ↔ RoundSafe console env s ccw := by
  have hcmd' : HasCommand (env.withOps console) s ccw := ⟨h.get, h.status, h.noTic⟩
  obtain ⟨hfile, hcnt⟩ := given_dev env ccw s
  have happend := fun hone : ccw.cmd = 0x01 =>
    consErrors_eq_nil (env.dev (s.cnt + 1)) (s.given env ccw).iobuf (s.given env ccw).dev hone
  rw [hfile] at happend
  by_cases hinvalid : invalidCcw s.f s.cd ccw = true
  · refine iff_of_true ⟨fun _ _ => ?_, fun _ hvalid => ?_⟩ (Or.inl hinvalid)
    · have hround := spoolRound_command hcmd'
      rw [if_pos hinvalid] at hround
      exact ⟨_, .of_out hround rfl (Or.inl rfl)⟩
    · rw [hinvalid] at hvalid
      exact absurd hvalid.symm Bool.false_ne_true
  · rw [RoundSafe, or_iff_right hinvalid]
    constructor
    · intro hright
      have hnil : console = true → ccw.cmd = 0x01 → consErrors (env.dev (s.cnt + 1)) ccw
          (s.given env ccw).iobuf (s.given env ccw).dev = [] := by
        intro hcons hone
        refine List.eq_nil_iff_forall_not_mem.2 fun ret hret => ?_
        have hneg := consErrors_neg ret hret
        have hpos := (hright.messages hcons (Bool.eq_false_iff.2 hinvalid) ret hret).1
        omega
      refine ⟨fun hwrite hlost => ?_, fun hcons hone => (happend hone).1 (hnil hcons hone)⟩
      obtain ⟨s', hends⟩ := hright.operand hwrite hlost
      obtain ⟨d, hdev, hsame, hstatus⟩ := hends.exec h hwrite hinvalid
      constructor
      · rintro ⟨rfl, hone⟩
        rw [deviceCommand_write hone, hcnt] at hdev
        exact consWrite_file hone (hnil rfl hone) hdev (hsame.trans hfile.symm)
      · by_contra hnot
        have hzero := (given_status hwrite hlost.count h.status).2 hnot
        rw [hzero] at hstatus
        rcases hends.check with hcheck | hcheck
        · exact absurd (hstatus.symm.trans hcheck) (by decide)
        · exact absurd (hstatus.symm.trans hcheck) (by decide)
    · intro hsafe
      constructor
      case operand =>
        intro hwrite hlost
        obtain ⟨hnot, hnoticed⟩ := hsafe.operand hwrite hlost
        obtain ⟨d, hdev, hsame, hstatus⟩ := deviceCommand_rejects hnot env (s.given env ccw)
        have hcheck := (given_status hwrite hlost.count h.status).1 hnoticed
        have hexec : execCcw (env.withOps console) s.addr ccw (s.given (env.withOps console) ccw)
            = some { s.given env ccw with
                dev := d, executed := (s.given env ccw).executed ++ [(s.addr, ccw)] } :=
          congrArg (Option.map _) hdev
        have hround := spoolRound_command hcmd'
        rw [if_neg hinvalid, hexec] at hround
        exact ⟨_, .of_out (hround.trans (if_pos hstatus)) (hsame.trans hfile) hcheck⟩
      case messages =>
        intro hcons _ ret hret
        by_cases hone : ccw.cmd = 0x01
        · rw [(happend hone).2 (hsafe.append hcons hone)] at hret
          exact absurd hret List.not_mem_nil
        · rw [consErrors, if_pos hone] at hret
          exact absurd hret List.not_mem_nil

end

/-- **A channel program is run as it should be with operands that are lost, exactly when**
every round is safe: then no command whose operand is lost changes the device, it ends
the program with a check that is reported, and every message has its text. -/
theorem spool_operand_iff (console : Bool) (env : ExecEnv) (vdev : VirtDevice)
    (iobuf mem : ℕ → UInt8) :
    (∀ s, Reaches (spoolRound (env.withOps console)) (execStart vdev iobuf mem) s →
      ∀ ccw, HasCommand env s ccw → RoundRight console env vdev s ccw) ↔
    ∀ s, Reaches (spoolRound (env.withOps console)) (execStart vdev iobuf mem) s →
      ∀ ccw, HasCommand env s ccw → RoundSafe console env s ccw := by
  constructor
  · intro h s hs ccw hcmd
    exact (roundRight_iff console env vdev hcmd).1 (h s hs ccw hcmd)
  · intro h s hs ccw hcmd
    exact (roundRight_iff console env vdev hcmd).2 (h s hs ccw hcmd)

/-- Page 0 of a guest is mapped, and no other one; it has one CCW, a write of the byte
at 4096. -/
def lostEnv : ExecEnv := { consEnv with frames := fun page => if page = 0 then some 0 else none }

/-- The example's storage: a write CCW of one byte whose data address is 1 MB. -/
def lostMem : ℕ → UInt8 := fun a => if a = 0 ∨ a = 3 then 1 else if a = 6 then 0x10 else 0

/-- **A write of a byte that cannot be fetched** puts a record into the spool file: the
command runs behind the failed transfer. -/
theorem not_spool_operand : ¬ ∀ (console : Bool) (env : ExecEnv) (vdev : VirtDevice)
    (iobuf mem : ℕ → UInt8) (s : Exec),
      Reaches (spoolRound (env.withOps console)) (execStart vdev iobuf mem) s →
        ∀ ccw, HasCommand env s ccw → RoundRight console env vdev s ccw := by
  intro h
  have hget : _getCcw lostEnv lostMem true 0 = .ok ⟨1, 0, 1, 4096⟩ := by decide +kernel
  have hright := h true lostEnv consVdev (fun _ => 0) lostMem _ .refl ⟨1, 0, 1, 4096⟩
    ⟨hget, rfl, by decide⟩
  obtain ⟨s', hends⟩ := hright.operand (by decide) ⟨0, by decide, Or.inr (by decide)⟩
  have hround : (match spoolRound (lostEnv.withOps true)
      (execStart consVdev (fun _ => 0) lostMem) with
    | .out t => t.dev.file.isSome
    | _ => true) = true := by decide +kernel
  rw [hends.ends] at hround
  dsimp only at hround
  rw [hends.file] at hround
  exact Bool.false_ne_true hround

end Hvf
