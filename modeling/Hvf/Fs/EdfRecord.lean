/-
# Records of a file

`edf_read_rec` of `cp/fs/edf.c`.  Record `recno` of a file is `FST.LRECL` bytes, and may
begin in one block and end in the next.  The place is computed with 32-bit numbers, and
`recno` is compared with `FST.AIC`, but the bytes of the record are not compared with the
`FST.ADBC` blocks that the file has.  As `FST.NLVL` must be 0, that is one block at most:
for the blocks behind it `bcache_read` answers with the same one.

`none` stands for an assertion that fails.
-/

import Hvf.Fs.BcacheBounds
import Hvf.Fs.Edf

namespace Hvf

open StepRun

/-- `FST.PTRSZ`. -/
def Fst.ptrsz (fst : DiskBlock) : ℕ := (fst 53).toNat

/-- The file is one of those that `edf_read_rec` does not read, or the record is behind
the last one. -/
def RecordRefused (fst : DiskBlock) (dbsiz recno : ℕ) : Prop :=
  Fst.nlvl fst ≠ 0 ∨ Fst.ptrsz fst ≠ 4 ∨ dbsiz < Fst.lrecl fst ∨ Fst.recfm fst ≠ fstDFix ∨
    Fst.aic fst ≤ recno

/-- Whether a record is refused is decided from the entry and the number. -/
instance (fst : DiskBlock) (dbsiz recno : ℕ) : Decidable (RecordRefused fst dbsiz recno) :=
  inferInstanceAs (Decidable (_ ∨ _))

/-- `recno * LRECL`. -/
def recordPos (fst : DiskBlock) (recno : ℕ) : ℕ := recno * Fst.lrecl fst % 2 ^ 32

/-- `off + LRECL > DBSIZ`. -/
def Straddles (fst : DiskBlock) (dbsiz recno : ℕ) : Prop :=
  dbsiz < (recordPos fst recno % dbsiz + Fst.lrecl fst) % 2 ^ 32

/-- Whether a record crosses a block is decided from the entry and the number. -/
instance (fst : DiskBlock) (dbsiz recno : ℕ) : Decidable (Straddles fst dbsiz recno) :=
  inferInstanceAs (Decidable (_ < _))

/-- `edf_read_rec` of a file of a file system with `ADT.DBSIZ = dbsiz`: what it returns,
and what it leaves in `buf` and in the cache of the file. -/
def edfReadRec (fst : DiskBlock) (dbsiz : ℕ) (disk : ℕ → DiskBlock) (fails : ℕ → Int)
    (recno : ℕ) (buf : ℕ → UInt8) (s : Bcache) : Option (Int × (ℕ → UInt8) × Bcache) :=
  let file : EdfFile := ⟨Fst.nlvl fst, Fst.fop fst, dbsiz⟩
  let lrecl := Fst.lrecl fst
  if RecordRefused fst dbsiz recno then some (-einval, buf, s)
  else
    let blk := recordPos fst recno / dbsiz
    let off := recordPos fst recno % dbsiz
    if Straddles fst dbsiz recno then
      let flen := dbsiz - off
      let slen := lrecl - flen
      if ¬ (flen < lrecl ∧ slen < lrecl) then none
      else
        match bcacheRead file disk fails 0 blk s with
        | (.error e, s) => some (e, buf, s)
        | (.ok dbuf, s) =>
          let buf := memcpy buf 0 dbuf off flen
          match bcacheRead file disk fails 0 (blk + 1) s with
          | (.error e, s) => some (e, buf, s)
          | (.ok dbuf, s) => some (0, memcpy buf flen dbuf 0 slen, s)
    else
      match bcacheRead file disk fails 0 blk s with
      | (.error e, s) => some (e, buf, s)
      | (.ok dbuf, s) => some (0, memcpy buf 0 dbuf off lrecl, s)

/-! ### The bytes of a file -/

/-- Where data block `blk` of a file is; block 0 of the directory is at `ADT.DOP`. -/
def dataBlock (fst : DiskBlock) (dop : Option ℕ) (disk : ℕ → DiskBlock) (blk : ℕ) : ℕ :=
  match dop, blk with
  | some lba, 0 => lba
  | _, _ => (mountedFile (Fst.nlvl fst) (Fst.fop fst)).lba disk (Fst.nlvl fst) blk

/-- Byte `pos` of a file, if it has one: it is in one of the `ADBC` data blocks, and that
block is in the tree. -/
def edfByte (fst : DiskBlock) (dop : Option ℕ) (disk : ℕ → DiskBlock) (pos : ℕ) : Option UInt8 :=
  if pos / 4096 < Fst.adbc fst ∧ pos / 4096 < 1024 ^ Fst.nlvl fst then
    some (disk (dataBlock fst dop disk (pos / 4096)) (pos % 4096))
  else none

/-- **A call of `edf_read_rec`**: the record asked for, the buffer it was given, and what it
returned and left there. -/
structure RecordCall where
  recno : ℕ
  buf : ℕ → UInt8
  result : Option (Int × (ℕ → UInt8))

/-- The call returned, and 0 only for a record in the data blocks of the file, which is
then in `buf`, and nothing else. -/
def RecordCall.Right (fst : DiskBlock) (dop : Option ℕ) (disk : ℕ → DiskBlock)
    (c : RecordCall) : Prop :=
  ∃ ret buf, c.result = some (ret, buf) ∧ (ret = 0 →
    (c.recno + 1) * Fst.lrecl fst ≤ 4096 * Fst.adbc fst ∧
    (∀ k < Fst.lrecl fst, edfByte fst dop disk (c.recno * Fst.lrecl fst + k) = some (buf k)) ∧
    ∀ k, Fst.lrecl fst ≤ k → buf k = c.buf k)

/-- **A run of reads of a file's records**: its cache, and the calls with their results. -/
structure RecordReads where
  cache : Bcache
  calls : List RecordCall

/-- **A step of that run**: a record is read, or another function reads one of the file's
data blocks through the same cache. -/
inductive RecordEvent
  | record (recno : ℕ) (buf : ℕ → UInt8)
  | block (blk : ℕ)

/-- What a call leaves. -/
def RecordReads.step (fst : DiskBlock) (disk : ℕ → DiskBlock) (fails : ℕ → Int)
    (s : RecordReads) : RecordEvent → RecordReads
  | .record recno buf =>
    let r := edfReadRec fst 4096 disk fails recno buf s.cache
    { cache := (r.map fun r => r.2.2).getD s.cache
      calls := s.calls ++ [⟨recno, buf, r.map fun r => (r.1, r.2.1)⟩] }
  | .block blk =>
    { s with cache :=
        (bcacheRead (mountedFile (Fst.nlvl fst) (Fst.fop fst)) disk fails 0 blk s.cache).2 }

/-- The calls as a step relation. -/
def ReadsRecord (fst : DiskBlock) (disk : ℕ → DiskBlock) (fails : ℕ → Int) (s : RecordReads)
    (e : RecordEvent) (u : RecordReads) : Prop :=
  s.step fst disk fails e = u

/-- The record is empty, or lies in the first block and the file has a block. -/
def RecordInFile (fst : DiskBlock) (recno : ℕ) : Prop :=
  Fst.lrecl fst = 0 ∨ (recno + 1) * Fst.lrecl fst ≤ 4096 ∧ 0 < Fst.adbc fst

/-- The allocations and reads for data block `blk` of a file with `NLVL = 0`: none where
block 0 has its data, two where it has its entry. -/
def blockCalls (s : Bcache) (blk : ℕ) : ℕ :=
  match s.entries.head?, blk with
  | some e, 0 => if e.data.isSome then 0 else 2
  | _, _ => 3

/-- One of `n` calls fails. -/
def CallFails (fails : ℕ → Int) (calls n : ℕ) : Prop := ∃ k < n, fails (calls + k) ≠ 0

/-- An allocation or a read for the blocks of the record fails. -/
def RecordFails (fails : ℕ → Int) (fst : DiskBlock) (recno : ℕ) (s : Bcache) : Prop :=
  CallFails fails s.calls
    (blockCalls s (recordPos fst recno / 4096) + if Straddles fst 4096 recno then 3 else 0)

/-- The call is refused, the file has the record, or a block of it is not read. -/
def RecordOk (fst : DiskBlock) (fails : ℕ → Int) (s : RecordReads) : RecordEvent → Prop
  | .record recno _ =>
    RecordRefused fst 4096 recno ∨ RecordInFile fst recno ∨ RecordFails fails fst recno s.cache
  | .block _ => True

section

variable {fst : DiskBlock} {dop : Option ℕ} {disk : ℕ → DiskBlock} {fails : ℕ → Int}

/-! ### A file with one block -/

/-- The cache of a file with `NLVL = 0` has entries of block 0 only, the first of them
with the place `base` of that block, which is `FST.FOP` if there is none yet. -/
structure OneBlock (base fop : ℕ) (disk : ℕ → DiskBlock) (s : Bcache) : Prop where
  keys : ∀ e ∈ s.entries, e.key = (0, 0)
  data : ∀ e ∈ s.entries, ∀ data, e.data = some data → data = disk e.lba
  first : ∀ e, s.entries.head? = some e → e.lba = base
  empty : s.entries = [] → fop = base

/-- **What a read of data block `blk` leaves**, of a file that has the one block. Only the
blocks it goes through can fail it; it keeps the cache, and the answer is the one block. -/
structure OneBlockRead (base fop : ℕ) (disk : ℕ → DiskBlock) (fails : ℕ → Int) (blk : ℕ)
    (s : Bcache) (r : Except Int DiskBlock × Bcache) : Prop where
  inv : OneBlock base fop disk r.2
  error : CallFails fails s.calls (blockCalls s blk) → ∃ e, e ≠ 0 ∧ r.1 = .error e
  ok : ¬ CallFails fails s.calls (blockCalls s blk) → ∃ data, r.1 = .ok data ∧
    r.2.calls = s.calls + blockCalls s blk ∧ (blk = 0 → data = disk base)

/-- Calls one after the other fail if some call of the one or the other fails. -/
theorem CallFails.append {calls n m : ℕ} :
    CallFails fails calls (n + m) ↔ CallFails fails calls n ∨ CallFails fails (calls + n) m := by
  constructor
  · rintro ⟨k, hk, hfail⟩
    rcases Nat.lt_or_ge k n with hlt | hge
    · exact Or.inl ⟨k, hlt, hfail⟩
    · refine Or.inr ⟨k - n, by omega, ?_⟩
      rwa [Nat.add_assoc, Nat.add_sub_cancel' hge]
  · rintro (⟨k, hk, hfail⟩ | ⟨k, hk, hfail⟩)
    · exact ⟨k, by omega, hfail⟩
    · exact ⟨n + k, by omega, by rwa [← Nat.add_assoc]⟩

/-- No call, no failure. -/
theorem CallFails.zero {calls : ℕ} : ¬ CallFails fails calls 0 :=
  fun ⟨_, hk, _⟩ => absurd hk (Nat.not_lt_zero _)

/-- The next call, then the ones before it. -/
theorem CallFails.succ {calls n : ℕ} :
    CallFails fails calls (n + 1) ↔ CallFails fails calls n ∨ fails (calls + n) ≠ 0 := by
  rw [CallFails.append]
  refine or_congr_right ⟨?_, fun hfail => ⟨0, Nat.one_pos, hfail⟩⟩
  rintro ⟨k, hk, hfail⟩
  obtain rfl := Nat.lt_one_iff.1 hk
  exact hfail

variable {base fop : ℕ} {s : Bcache}

/-- An entry of block 0 is put behind the others. -/
theorem OneBlock.push (h : OneBlock base fop disk s) {data : Option DiskBlock}
    (hdata : ∀ d, data = some d → d = disk fop) (calls : ℕ) :
    OneBlock base fop disk ⟨s.entries ++ [⟨0, 0, fop, data⟩], calls⟩ := by
  constructor
  case keys =>
    intro e he
    rcases List.mem_append.1 he with hold | hnew
    · exact h.keys e hold
    · obtain rfl := List.mem_singleton.1 hnew
      rfl
  case data =>
    intro e he
    rcases List.mem_append.1 he with hold | hnew
    · exact h.data e hold
    · obtain rfl := List.mem_singleton.1 hnew
      exact hdata
  case first =>
    intro e he
    cases hentries : s.entries with
    | nil =>
      rw [hentries] at he
      obtain rfl := Option.some.inj he
      exact h.empty hentries
    | cons cur rest =>
      rw [hentries] at he
      obtain rfl := Option.some.inj he
      exact h.first _ (congrArg List.head? hentries)
  case empty =>
    intro hnil
    exact absurd hnil (List.concat_ne_nil _ _)

/-- The block is not in the cache, or is asked for by a number that no entry has. -/
theorem OneBlock.new (h : OneBlock base fop disk s) (fails : ℕ → Int) {blk : ℕ}
    (hcalls : blockCalls s blk = 3) (hfirst : blk = 0 → s.entries = []) :
    OneBlockRead base fop disk fails blk s (bcacheNew disk fails 0 0 fop s) := by
  have hfails : CallFails fails s.calls (blockCalls s blk) ↔
      fails s.calls ≠ 0 ∨ fails (s.calls + 1) ≠ 0 ∨ fails (s.calls + 2) ≠ 0 := by
    rw [hcalls, CallFails.succ, CallFails.succ, CallFails.succ, or_iff_right CallFails.zero,
      or_assoc]
    rfl
  have hnew : (-enomem) ≠ 0 := by decide
  have hnodata : ∀ d, (none : Option DiskBlock) = some d → d = disk fop := fun _ hd => nomatch hd
  rw [bcacheNew_eq]
  by_cases hmalloc : fails s.calls ≠ 0
  · rw [if_pos hmalloc]
    refine ⟨⟨h.keys, h.data, h.first, h.empty⟩, fun _ => ⟨_, hnew, rfl⟩, fun hnone => ?_⟩
    exact absurd (hfails.2 (Or.inl hmalloc)) hnone
  · rw [if_neg hmalloc]
    by_cases hpage : fails (s.calls + 1) ≠ 0
    · rw [if_pos hpage]
      refine ⟨h.push hnodata _, fun _ => ⟨_, hnew, rfl⟩, fun hnone => ?_⟩
      exact absurd (hfails.2 (Or.inr (Or.inl hpage))) hnone
    · rw [if_neg hpage]
      by_cases hread : fails (s.calls + 2) ≠ 0
      · rw [if_pos hread]
        refine ⟨h.push hnodata _, fun _ => ⟨_, hread, rfl⟩, fun hnone => ?_⟩
        exact absurd (hfails.2 (Or.inr (Or.inr hread))) hnone
      · rw [if_neg hread]
        refine ⟨h.push (fun d hd => (Option.some.inj hd).symm) _, fun hfail => ?_, fun _ => ?_⟩
        · rcases hfails.1 hfail with hfail | hfail | hfail
          · exact absurd hfail hmalloc
          · exact absurd hfail hpage
          · exact absurd hfail hread
        · refine ⟨_, rfl, by rw [hcalls], fun hzero => ?_⟩
          rw [h.empty (hfirst hzero)]

/-- The first entry is of block 0. -/
theorem OneBlock.head (h : OneBlock base fop disk s) (fails : ℕ → Int) {cur : BcacheEntry}
    {rest : List BcacheEntry} (hentries : s.entries = cur :: rest) :
    OneBlockRead base fop disk fails 0 s (bcacheFound disk fails 0 s) := by
  have hmem : cur ∈ s.entries := by
    rw [hentries]
    exact List.mem_cons_self
  have hlba : cur.lba = base := h.first cur (by rw [hentries]; rfl)
  have hcur : s.entries[0]? = some cur := by
    rw [hentries]
    rfl
  unfold bcacheFound
  rw [hcur]
  cases hdata : cur.data with
  | some data =>
    have hcalls : blockCalls s 0 = 0 := by simp [blockCalls, hentries, hdata]
    dsimp only
    rw [hdata]
    refine ⟨h, fun hfail => ?_, fun _ => ⟨data, rfl, by rw [hcalls]; rfl, fun _ => ?_⟩⟩
    · rw [hcalls] at hfail
      exact absurd hfail CallFails.zero
    · rw [h.data cur hmem data hdata, hlba]
  | none =>
    have hfails : CallFails fails s.calls (blockCalls s 0) ↔
        fails s.calls ≠ 0 ∨ fails (s.calls + 1) ≠ 0 := by
      have hcalls : blockCalls s 0 = 2 := by simp [blockCalls, hentries, hdata]
      rw [hcalls, CallFails.succ, CallFails.succ, or_iff_right CallFails.zero]
      rfl
    have hcalls : blockCalls s 0 = 2 := by simp [blockCalls, hentries, hdata]
    dsimp only
    rw [hdata]
    dsimp only
    by_cases hpage : fails s.calls ≠ 0
    · rw [if_pos hpage]
      refine ⟨⟨h.keys, h.data, h.first, h.empty⟩, fun _ => ⟨_, by decide, rfl⟩, fun hnone => ?_⟩
      exact absurd (hfails.2 (Or.inl hpage)) hnone
    · rw [if_neg hpage]
      by_cases hread : fails (s.calls + 1) ≠ 0
      · rw [if_pos hread]
        refine ⟨⟨h.keys, h.data, h.first, h.empty⟩, fun _ => ⟨_, hread, rfl⟩, fun hnone => ?_⟩
        exact absurd (hfails.2 (Or.inr hread)) hnone
      · rw [if_neg hread]
        refine ⟨?_, fun hfail => ?_, fun _ => ⟨_, rfl, by rw [hcalls], fun _ => by rw [hlba]⟩⟩
        · rw [hentries, List.set_cons_zero]
          constructor
          case keys =>
            intro e he
            rcases List.mem_cons.1 he with rfl | he
            · exact h.keys cur hmem
            · exact h.keys e (hentries ▸ List.mem_cons_of_mem cur he)
          case data =>
            intro e he
            rcases List.mem_cons.1 he with rfl | he
            · exact fun data hd => (Option.some.inj hd).symm
            · exact h.data e (hentries ▸ List.mem_cons_of_mem cur he)
          case first =>
            intro e he
            obtain rfl := Option.some.inj he
            exact hlba
          case empty =>
            intro hnil
            exact nomatch hnil
        · rcases hfails.1 hfail with hfail | hfail
          · exact absurd hfail hpage
          · exact absurd hfail hread

/-- **A read of a data block** of a file with one. -/
theorem OneBlock.read (h : OneBlock base fop disk s) (fails : ℕ → Int) (blk : ℕ) :
    OneBlockRead base fop disk fails blk s (bcacheRead (mountedFile 0 fop) disk fails 0 blk s) := by
  have hread : bcacheRead (mountedFile 0 fop) disk fails 0 blk s =
      (bcacheFind 0 blk s).elim (bcacheNew disk fails 0 0 fop s) fun i =>
        bcacheFound disk fails i s := by
    show bcacheReadUp (mountedFile 0 fop) disk fails 0 blk s = _
    rw [bcacheReadUp, show (mountedFile 0 fop).nlvl = 0 from rfl]
    cases bcacheFind 0 blk s with
    | none => rfl
    | some i => rfl
  rw [hread]
  cases hentries : s.entries with
  | nil =>
    have hfind : bcacheFind 0 blk s = none := by rw [bcacheFind, hentries]; rfl
    rw [hfind]
    exact h.new fails (by simp [blockCalls, hentries]) fun _ => hentries
  | cons cur rest =>
    have hkey : cur.key = (0, 0) := h.keys cur (by rw [hentries]; exact List.mem_cons_self)
    obtain ⟨hlevel, hblk⟩ := Prod.mk.inj hkey
    cases blk with
    | zero =>
      have hfind : bcacheFind 0 0 s = some 0 := by
        rw [bcacheFind, hentries, List.findIdx?_cons, hlevel, hblk]
        rfl
      rw [hfind]
      exact h.head fails hentries
    | succ blk =>
      have hfind : bcacheFind 0 (blk + 1) s = none := by
        refine List.findIdx?_eq_none_iff.2 fun e he => ?_
        have hzero : e.blk = 0 := congrArg Prod.snd (h.keys e he)
        simp [hzero]
      rw [hfind]
      exact h.new fails (by simp [blockCalls, hentries]) fun hzero =>
        absurd hzero (Nat.succ_ne_zero _)

/-! ### One record -/

/-- **What `edf_read_rec` does** where the file has one block and the record is not refused:
it returns 0 if the blocks were read, and then the buffer has the bytes of the block at the
record's place, and else what it had. -/
structure RecordRead (base : ℕ) (fst : DiskBlock) (disk : ℕ → DiskBlock) (fails : ℕ → Int)
    (recno : ℕ) (buf : ℕ → UInt8) (s : Bcache) (ret : Int) (buf' : ℕ → UInt8) (s' : Bcache) :
    Prop where
  result : edfReadRec fst 4096 disk fails recno buf s = some (ret, buf', s')
  inv : OneBlock base (Fst.fop fst) disk s'
  zero_iff : ret = 0 ↔ ¬ RecordFails fails fst recno s
  data : ret = 0 → ¬ Straddles fst 4096 recno → recordPos fst recno / 4096 = 0 →
    buf' = memcpy buf 0 (disk base) (recordPos fst recno % 4096) (Fst.lrecl fst)

/-- A record that is refused costs no read and leaves buffer and cache alone. -/
theorem edfReadRec_refused {recno : ℕ} (h : RecordRefused fst 4096 recno) (buf : ℕ → UInt8)
    (s : Bcache) : edfReadRec fst 4096 disk fails recno buf s = some (-einval, buf, s) := by
  rw [edfReadRec]
  exact if_pos h

/-- The record is in one block. -/
theorem OneBlock.recordWhole (h : OneBlock base (Fst.fop fst) disk s) {recno : ℕ}
    (hok : ¬ RecordRefused fst 4096 recno) (hin : ¬ Straddles fst 4096 recno)
    (buf : ℕ → UInt8) : ∃ ret buf' s', RecordRead base fst disk fails recno buf s ret buf' s' := by
  have hnlvl : Fst.nlvl fst = 0 := not_not.1 fun hn => hok (Or.inl hn)
  have hread := h.read fails (recordPos fst recno / 4096)
  have hfails : RecordFails fails fst recno s ↔
      CallFails fails s.calls (blockCalls s (recordPos fst recno / 4096)) := by
    rw [RecordFails, if_neg hin, Nat.add_zero]
  have hcall : edfReadRec fst 4096 disk fails recno buf s =
      match bcacheRead (mountedFile 0 (Fst.fop fst)) disk fails 0
          (recordPos fst recno / 4096) s with
      | (.error e, s) => some (e, buf, s)
      | (.ok dbuf, s) =>
        some (0, memcpy buf 0 dbuf (recordPos fst recno % 4096) (Fst.lrecl fst), s) := by
    rw [edfReadRec]
    dsimp only
    rw [if_neg hok, if_neg hin, hnlvl]
    rfl
  generalize bcacheRead (mountedFile 0 (Fst.fop fst)) disk fails 0 (recordPos fst recno / 4096) s
    = r at hread hcall
  obtain ⟨res, s'⟩ := r
  by_cases hfail : CallFails fails s.calls (blockCalls s (recordPos fst recno / 4096))
  · obtain ⟨e, he, rfl⟩ := hread.error hfail
    exact ⟨e, buf, s', hcall, hread.inv,
      iff_of_false he (not_not.2 (hfails.2 hfail)), fun hzero => absurd hzero he⟩
  · obtain ⟨data, rfl, -, hdata⟩ := hread.ok hfail
    refine ⟨0, _, s', hcall, hread.inv, iff_of_true rfl fun hf => hfail (hfails.1 hf), ?_⟩
    intro _ _ hzero
    rw [hdata hzero]

/-- The record begins in one block and ends in the next. -/
theorem OneBlock.recordStraddles (h : OneBlock base (Fst.fop fst) disk s) {recno : ℕ}
    (hok : ¬ RecordRefused fst 4096 recno) (hover : Straddles fst 4096 recno)
    (buf : ℕ → UInt8) : ∃ ret buf' s', RecordRead base fst disk fails recno buf s ret buf' s' := by
  have hnlvl : Fst.nlvl fst = 0 := not_not.1 fun hn => hok (Or.inl hn)
  have hlrecl : Fst.lrecl fst ≤ 4096 := Nat.not_lt.1 fun hlt => hok (Or.inr (Or.inr (Or.inl hlt)))
  have hread := h.read fails (recordPos fst recno / 4096)
  -- the assertions hold
  have hassert : 4096 - recordPos fst recno % 4096 < Fst.lrecl fst ∧
      Fst.lrecl fst - (4096 - recordPos fst recno % 4096) < Fst.lrecl fst := by
    have hoff := Nat.mod_lt (recordPos fst recno) (show 0 < 4096 by norm_num)
    have hsum : 4096 < recordPos fst recno % 4096 + Fst.lrecl fst :=
      lt_of_lt_of_le hover (Nat.mod_le _ _)
    omega
  have hfails : RecordFails fails fst recno s ↔
      CallFails fails s.calls (blockCalls s (recordPos fst recno / 4096)) ∨
      CallFails fails (s.calls + blockCalls s (recordPos fst recno / 4096)) 3 := by
    rw [RecordFails, if_pos hover, CallFails.append]
  have hcall : edfReadRec fst 4096 disk fails recno buf s =
      match bcacheRead (mountedFile 0 (Fst.fop fst)) disk fails 0
          (recordPos fst recno / 4096) s with
      | (.error e, s) => some (e, buf, s)
      | (.ok dbuf, s) =>
        match bcacheRead (mountedFile 0 (Fst.fop fst)) disk fails 0
            (recordPos fst recno / 4096 + 1) s with
        | (.error e, s) => some (e, memcpy buf 0 dbuf (recordPos fst recno % 4096)
            (4096 - recordPos fst recno % 4096), s)
        | (.ok dbuf', s) => some (0, memcpy (memcpy buf 0 dbuf (recordPos fst recno % 4096)
            (4096 - recordPos fst recno % 4096)) (4096 - recordPos fst recno % 4096) dbuf' 0
            (Fst.lrecl fst - (4096 - recordPos fst recno % 4096)), s) := by
    rw [edfReadRec]
    dsimp only
    rw [if_neg hok, if_pos hover, if_neg (not_not.2 hassert), hnlvl]
    rfl
  generalize bcacheRead (mountedFile 0 (Fst.fop fst)) disk fails 0 (recordPos fst recno / 4096) s
    = r at hread hcall
  obtain ⟨res, s'⟩ := r
  by_cases hfail : CallFails fails s.calls (blockCalls s (recordPos fst recno / 4096))
  · obtain ⟨e, he, rfl⟩ := hread.error hfail
    exact ⟨e, buf, s', hcall, hread.inv,
      iff_of_false he (not_not.2 (hfails.2 (Or.inl hfail))), fun hzero => absurd hzero he⟩
  · obtain ⟨data, rfl, hcalls, -⟩ := hread.ok hfail
    have hnext := hread.inv.read fails (recordPos fst recno / 4096 + 1)
    have hthree : blockCalls s' (recordPos fst recno / 4096 + 1) = 3 := by
      cases hhead : s'.entries.head? with
      | none => simp [blockCalls, hhead]
      | some e => simp [blockCalls, hhead]
    dsimp only at hcall hcalls hnext
    generalize bcacheRead (mountedFile 0 (Fst.fop fst)) disk fails 0
      (recordPos fst recno / 4096 + 1) s' = r' at hnext hcall
    obtain ⟨res', s''⟩ := r'
    have hsecond : CallFails fails s'.calls (blockCalls s' (recordPos fst recno / 4096 + 1)) ↔
        CallFails fails (s.calls + blockCalls s (recordPos fst recno / 4096)) 3 := by
      rw [hthree, hcalls]
    by_cases hfail' : CallFails fails s'.calls (blockCalls s' (recordPos fst recno / 4096 + 1))
    · obtain ⟨e, he, rfl⟩ := hnext.error hfail'
      exact ⟨e, _, s'', hcall, hnext.inv,
        iff_of_false he (not_not.2 (hfails.2 (Or.inr (hsecond.1 hfail')))),
        fun hzero => absurd hzero he⟩
    · obtain ⟨data', rfl, -, -⟩ := hnext.ok hfail'
      refine ⟨0, _, s'', hcall, hnext.inv, iff_of_true rfl fun hf => ?_,
        fun _ hin => absurd hover hin⟩
      rcases hfails.1 hf with hf | hf
      · exact hfail hf
      · exact hfail' (hsecond.2 hf)

/-- **A record** of a file with one block is read, or is not there. -/
theorem OneBlock.record (h : OneBlock base (Fst.fop fst) disk s) {recno : ℕ}
    (hok : ¬ RecordRefused fst 4096 recno) (fails : ℕ → Int) (buf : ℕ → UInt8) :
    ∃ ret buf' s', RecordRead base fst disk fails recno buf s ret buf' s' := by
  by_cases hover : Straddles fst 4096 recno
  · exact h.recordStraddles hok hover buf
  · exact h.recordWhole hok hover buf

/-- Block 0 of a file with one. -/
theorem edfByte_first (hnlvl : Fst.nlvl fst = 0) (hadbc : 0 < Fst.adbc fst) {pos : ℕ}
    (hpos : pos < 4096) :
    edfByte fst dop disk pos = some (disk (dataBlock fst dop disk 0) pos) := by
  rw [edfByte, Nat.div_eq_of_lt hpos, Nat.mod_eq_of_lt hpos, hnlvl]
  exact if_pos ⟨hadbc, Nat.one_pos⟩

/-- A file with `NLVL = 0` has no byte behind block 0. -/
theorem edfByte_some (hnlvl : Fst.nlvl fst = 0) {pos : ℕ} {b : UInt8}
    (h : edfByte fst dop disk pos = some b) : pos < 4096 ∧ 0 < Fst.adbc fst := by
  rw [edfByte, hnlvl] at h
  split_ifs at h with hin
  have hzero : pos / 4096 = 0 := Nat.lt_one_iff.1 hin.2
  rw [hzero] at hin
  exact ⟨(Nat.div_eq_zero_iff_lt (by norm_num)).1 hzero, hin.1⟩

/-- A record that the file has is where it is looked for. -/
theorem RecordInFile.pos {recno : ℕ} (h : RecordInFile fst recno) :
    recordPos fst recno = recno * Fst.lrecl fst ∧ recordPos fst recno + Fst.lrecl fst ≤ 4096 ∧
      (Fst.lrecl fst ≠ 0 → recordPos fst recno < 4096) := by
  rw [recordPos]
  rcases h with hzero | ⟨hle, -⟩
  · rw [hzero, Nat.mul_zero]
    exact ⟨rfl, by norm_num, fun hne => absurd rfl hne⟩
  · rw [Nat.add_one_mul] at hle
    rw [Nat.mod_eq_of_lt (by omega)]
    exact ⟨rfl, hle, fun hne => by omega⟩

/-- A record within the file does not cross a block: the record length divides the block size.
-/
theorem RecordInFile.not_straddles {recno : ℕ} (h : RecordInFile fst recno) :
    ¬ Straddles fst 4096 recno := by
  obtain ⟨-, hle, -⟩ := h.pos
  have hmod := Nat.mod_le (recordPos fst recno) 4096
  rw [Straddles, Nat.mod_eq_of_lt (by omega)]
  omega

/-- **A record of the file** is delivered. -/
theorem RecordInFile.right {recno : ℕ} (h : RecordInFile fst recno)
    (hok : ¬ RecordRefused fst 4096 recno) {buf buf' : ℕ → UInt8} {ret : Int} {s' : Bcache}
    (hread : RecordRead (dataBlock fst dop disk 0) fst disk fails recno buf s ret buf' s') :
    RecordCall.Right fst dop disk ⟨recno, buf, some (ret, buf')⟩ := by
  have hnlvl : Fst.nlvl fst = 0 := not_not.1 fun hn => hok (Or.inl hn)
  refine ⟨ret, buf', rfl, fun hret => ?_⟩
  obtain ⟨hpos, hle, hlt⟩ := h.pos
  by_cases hzero : Fst.lrecl fst = 0
  · have hbuf := hread.data hret h.not_straddles (by rw [hpos, hzero, Nat.mul_zero, Nat.zero_div])
    refine ⟨by rw [hzero]; exact Nat.zero_le _, fun k hk => by omega, fun k hk => ?_⟩
    rw [hbuf, memcpy, if_neg (by omega)]
  · have hfirst := hlt hzero
    have hbuf := hread.data hret h.not_straddles (Nat.div_eq_of_lt hfirst)
    rw [Nat.mod_eq_of_lt hfirst, hpos] at hbuf
    obtain ⟨hlen, hadbc⟩ := h.resolve_left hzero
    dsimp only
    refine ⟨hlen.trans (Nat.le_mul_of_pos_right _ hadbc), fun k hk => ?_, fun k hk => ?_⟩
    · rw [edfByte_first hnlvl hadbc (by omega), hbuf, memcpy, if_pos (by omega), Nat.sub_zero]
    · rw [hbuf, memcpy, if_neg (by omega)]

/-! ### Runs -/

/-- The cache of a file of one block holds that block from the start. -/
theorem oneBlock_initial (hnlvl : Fst.nlvl fst = 0) :
    OneBlock (dataBlock fst dop disk 0) (Fst.fop fst) disk (.initial dop) := by
  cases dop with
  | none =>
    refine ⟨fun e he => absurd he List.not_mem_nil, fun e he => absurd he List.not_mem_nil,
      fun e he => absurd he (Option.not_mem_none e), fun _ => ?_⟩
    show Fst.fop fst = (mountedFile (Fst.nlvl fst) (Fst.fop fst)).lba disk (Fst.nlvl fst) 0
    rw [hnlvl]
    rfl
  | some lba =>
    refine ⟨fun e he => ?_, fun e he => ?_, fun e he => ?_, fun hnil => ?_⟩
    · rw [List.mem_singleton.1 he]
      rfl
    · rw [List.mem_singleton.1 he]
      exact fun _ hd => nomatch hd
    · rw [← Option.some.inj he]
      rfl
    · exact absurd hnil (List.cons_ne_nil _ _)

/-- The cache stays that of a file with one block. -/
theorem oneBlock_step {s u : RecordReads} {e : RecordEvent} (hnlvl : Fst.nlvl fst = 0)
    (h : OneBlock (dataBlock fst dop disk 0) (Fst.fop fst) disk s.cache)
    (hstep : ReadsRecord fst disk fails s e u) :
    OneBlock (dataBlock fst dop disk 0) (Fst.fop fst) disk u.cache := by
  subst hstep
  cases e with
  | record recno buf =>
    show OneBlock _ _ disk
      (((edfReadRec fst 4096 disk fails recno buf s.cache).map fun r => r.2.2).getD s.cache)
    by_cases hok : RecordRefused fst 4096 recno
    · rw [edfReadRec_refused hok]
      exact h
    · obtain ⟨ret, buf', s', hread⟩ := h.record hok fails buf
      rw [hread.result]
      exact hread.inv
  | block blk =>
    show OneBlock _ _ disk
      (bcacheRead (mountedFile (Fst.nlvl fst) (Fst.fop fst)) disk fails 0 blk s.cache).2
    rw [hnlvl]
    exact (h.read fails blk).inv

/-- **A call is right exactly when** it is refused, the file has the record, or a block
of it is not read. -/
theorem recordCall_right_iff (fails : ℕ → Int) (recno : ℕ) (buf : ℕ → UInt8) {s : RecordReads}
    (h : Fst.nlvl fst = 0 → OneBlock (dataBlock fst dop disk 0) (Fst.fop fst) disk s.cache) :
    RecordCall.Right fst dop disk ⟨recno, buf,
      (edfReadRec fst 4096 disk fails recno buf s.cache).map fun r => (r.1, r.2.1)⟩ ↔
      RecordOk fst fails s (.record recno buf) := by
  by_cases hok : RecordRefused fst 4096 recno
  · refine iff_of_true ⟨-einval, buf, ?_, fun hzero => absurd hzero (by decide)⟩ (Or.inl hok)
    rw [edfReadRec_refused hok]
    rfl
  · have hnlvl : Fst.nlvl fst = 0 := not_not.1 fun hn => hok (Or.inl hn)
    obtain ⟨ret, buf', s', hread⟩ := (h hnlvl).record hok fails buf
    rw [hread.result]
    constructor
    · rintro ⟨ret', buf'', hresult, hright⟩
      obtain ⟨rfl, rfl⟩ := Prod.mk.inj (Option.some.inj hresult)
      refine Or.inr ?_
      by_contra hnot
      obtain ⟨hnotin, hnofail⟩ := not_or.1 hnot
      have hpos : Fst.lrecl fst ≠ 0 := fun hzero => hnotin (Or.inl hzero)
      dsimp only at hright
      obtain ⟨-, hbytes, -⟩ := hright (hread.zero_iff.2 hnofail)
      -- the last byte of the record is in block 0
      obtain ⟨hlast, hadbc⟩ := edfByte_some hnlvl (hbytes (Fst.lrecl fst - 1) (by omega))
      refine hnotin (Or.inr ⟨?_, hadbc⟩)
      rw [Nat.add_one_mul]
      omega
    · rintro (hrefused | hin | hfail)
      · exact absurd hrefused hok
      · exact hin.right hok hread
      · exact ⟨ret, buf', rfl, fun hzero => absurd hfail (hread.zero_iff.1 hzero)⟩

end

/-- **`edf_read_rec` delivers records of the file only, exactly when** every call of the run
is refused, or is for a record in the one block of the file, or fails to read a block. The
number is compared with AIC, and never with what the one block holds. -/
theorem edf_read_rec_iff (fst : DiskBlock) (dop : Option ℕ) (disk : ℕ → DiskBlock)
    (fails : ℕ → Int) {es : List RecordEvent} {s : RecordReads}
    (hrun : Run (ReadsRecord fst disk fails) ⟨.initial dop, []⟩ es s) :
    (∀ es' s', es' <+: es → Run (ReadsRecord fst disk fails) ⟨.initial dop, []⟩ es' s' →
      ∀ c ∈ s'.calls, c.Right fst dop disk) ↔
      Run (guarded (RecordOk fst fails) (ReadsRecord fst disk fails)) ⟨.initial dop, []⟩ es s := by
  refine Run.always_iff (P := fun _ s => ∀ c ∈ s.calls, c.Right fst dop disk)
    (fun _ _ _ _ hu hu' => hu.symm.trans hu') (fun c hc => absurd hc List.not_mem_nil) ?_ hrun
  intro es s e u hbefore hright hstep
  have hone : Fst.nlvl fst = 0 →
      OneBlock (dataBlock fst dop disk 0) (Fst.fop fst) disk s.cache := fun hnlvl =>
    hbefore.of_guarded.invariant
      (P := fun s => OneBlock (dataBlock fst dop disk 0) (Fst.fop fst) disk s.cache)
      (oneBlock_initial hnlvl) fun _ _ _ h hstep => oneBlock_step hnlvl h hstep
  subst hstep
  cases e with
  | block blk => exact iff_of_true hright trivial
  | record recno buf =>
    rw [← recordCall_right_iff fails recno buf hone]
    constructor
    · intro hall
      exact hall _ (List.mem_append_right _ (List.mem_singleton_self _))
    · intro hnew c hc
      rcases List.mem_append.1 hc with hold | hlast
      · exact hright c hold
      · obtain rfl := List.mem_singleton.1 hlast
        exact hnew

/-- Two records of 4096 bytes, and one data block, which is block 7. -/
def twoRecords : DiskBlock
  | 30 => 0xC6
  | 34 => 0x10
  | 43 => 7
  | 47 => 1
  | 51 => 2
  | 53 => 4
  | _ => 0

/-- The first of the file's two records is read, which is in its block. -/
theorem edf_read_rec_iff_first : ∃ s : RecordReads,
    Run (ReadsRecord twoRecords pointerDisk fun _ => 0) ⟨.initial none, []⟩
      [.record 0 fun _ => 0] s ∧
    ∀ c ∈ s.calls, c.Right twoRecords none pointerDisk := by
  have hrun : Run (guarded (RecordOk twoRecords fun _ => 0)
      (ReadsRecord twoRecords pointerDisk fun _ => 0)) ⟨.initial none, []⟩
      [.record 0 fun _ => 0] _ :=
    Run.nil.snoc ⟨Or.inr (Or.inl (Or.inr (by decide))), rfl⟩
  exact ⟨_, hrun.of_guarded, (edf_read_rec_iff twoRecords none pointerDisk _ hrun.of_guarded).2 hrun
    _ _ List.prefix_rfl hrun.of_guarded⟩

/-- **The second record** of a file that has one block of one record is the first again: the
blocks behind the first are all answered with it. -/
theorem not_edf_read_rec : ¬ ∀ (fst : DiskBlock) (dop : Option ℕ) (disk : ℕ → DiskBlock)
    (fails : ℕ → Int) (es : List RecordEvent) (s : RecordReads),
      Run (ReadsRecord fst disk fails) ⟨.initial dop, []⟩ es s →
        ∀ c ∈ s.calls, c.Right fst dop disk := by
  intro h
  obtain ⟨ret, buf, hresult, hright⟩ := h twoRecords none pointerDisk (fun _ => 0)
    [.record 1 fun _ => 0] _ (Run.nil.snoc rfl) _ (List.mem_singleton_self _)
  have hret : ret = 0 := (Prod.mk.inj (Option.some.inj hresult)).1.symm
  exact absurd (hright hret).1 (by decide)

end Hvf
