/-
# Reading a block of a disk

`d3390_read` of `cp/drivers/dasd.c` with `submit_io`, and what is above it:
`bdev_read_block` of `cp/fs/bdev.c` and the read in `bcache_read`.

The channel program that `d3390_read` builds tells the device which record to
store in the buffer; the device answers with interrupts, and `submit_io` sleeps
until one of them has set `done`.  The interrupts that arrive are data, in order,
with the condition code of the next `start_sch`; those of other operations of the
device are among them.
-/

import Hvf.Fs.Bcache
import Hvf.Nucleus.IoQueue

namespace Hvf

section

variable {Op : Type*} [DecidableEq Op]

/-- The loop of `submit_io` with `CAN_SLEEP`; `none` if the task still sleeps after
the last interrupt, or one of them was a `BUG_ON`. -/
def sleepUntilDone (own : Op → Bool) (ioop : Op) :
    IoDev Op → List (IoInt × BitVec 2) → Option (IoDev Op)
  | d, [] => if d.done ioop then some d else none
  | d, (i, cc) :: is =>
    if d.done ioop then some d
    else (_ioIntHandler own d i cc).bind fun d => sleepUntilDone own ioop d is

/-- `submit_io` with `CAN_SLEEP`, and the value it returns. -/
def submitIo (own : Op → Bool) (d : IoDev Op) (ioop : Op) (cc : BitVec 2)
    (is : List (IoInt × BitVec 2)) : Option (IoDev Op × Int) :=
  let (d, ret) := queueIoOp (prepareIoOp d ioop) ioop cc
  (sleepUntilDone own ioop d is).map fun d => (d, ret)

/-- `d3390_read` of block `lba`; its operation has no handler of its own. -/
def d3390Read (own : Op → Bool) (d : IoDev Op) (ioop : Op) (cc : BitVec 2)
    (is : List (IoInt × BitVec 2)) (lba : Int) : Option (IoDev Op × Int) :=
  if lba < 1 then some (d, -einval)
  else submitIo (Function.update own ioop false) d ioop cc is

/-- `bdev_read_block`; `read` says whether the device type has the function. -/
def bdevReadBlock (read : Bool) (own : Op → Bool) (d : IoDev Op) (ioop : Op) (cc : BitVec 2)
    (is : List (IoInt × BitVec 2)) (lba : Int) : Option (IoDev Op × Int) :=
  if ¬ read then some (d, -einval)
  else d3390Read own d ioop cc is lba

/-- `bcache_read` for entry `i` of the cache, where a page was allocated and
`bdev_read_block` left `buf` in it and returned `ret`. -/
def bcacheReadBlock (buf : DiskBlock) (i : ℕ) (s : Bcache) (ret : Int) :
    Except Int DiskBlock × Bcache :=
  bcacheFound (fun _ => buf) (fun n => if n = s.calls + 1 then ret else 0) i s

/-! ### How an operation ends -/

/-- The interrupts that are for the channel program of `ioop`. -/
def presented (own : Op → Bool) (ioop : Op) :
    IoDev Op → List (IoInt × BitVec 2) → List IoInt
  | _, [] => []
  | d, (i, cc) :: is =>
    (if d.completing i = some ioop then [i] else []) ++
      match _ioIntHandler own d i cc with
      | none => []
      | some d => presented own ioop d is

/-- The status says that the operation is over, or there is none to be had. -/
def IoInt.ends (i : IoInt) : Bool :=
  testSch i.testCc ≠ 0 || i.devStatus &&& 0x02 ≠ 0 || i.devStatus &&& 0x04 ≠ 0

/-- The operation is over and was carried out: Device End without Unit Check. -/
def IoInt.good (i : IoInt) : Bool :=
  testSch i.testCc = 0 && i.devStatus &&& 0x02 = 0 && i.devStatus &&& 0x04 ≠ 0

/-- The interrupt that ends the read, once it was submitted. -/
def endsWith (own : Op → Bool) (d : IoDev Op) (ioop : Op) (cc : BitVec 2)
    (is : List (IoInt × BitVec 2)) : Option IoInt :=
  (presented (Function.update own ioop false) ioop
    (queueIoOp (prepareIoOp d ioop) ioop cc).1 is).find? IoInt.ends

variable {own : Op → Bool} {ioop : Op} {d d' : IoDev Op}

omit [DecidableEq Op] in
/-- The default handler keeps the operation in flight until its status ends it. -/
theorem ioOpErr_eq_eagain (hown : own ioop = false) (i : IoInt) :
    ioOpErr own ioop i = -eagain ↔ i.ends = false := by
  unfold ioOpErr defaultIoHandler IoInt.ends testSch
  rw [hown]
  by_cases htest : i.testCc = 3#2
  · simp [htest, einval, eagain]
  · by_cases hcheck : i.devStatus &&& 2#8 = 0#8
    · by_cases hend : i.devStatus &&& 4#8 = 0#8
      · simp [htest, hcheck, hend]
      · simp [htest, hcheck, hend, eagain]
    · by_cases hend : i.devStatus &&& 4#8 = 0#8
      · simp [htest, hcheck, hend, euchck, eagain]
      · simp [htest, hcheck, hend, eagain]

/-- `done` of an operation that is not done yet is set by the interrupt that ends
it and by no other. -/
theorem ioIntHandler_done (hown : own ioop = false) (hdone : d.done ioop = false) {i : IoInt}
    {cc : BitVec 2} (h : _ioIntHandler own d i cc = some d') :
    (d'.done ioop = true ↔ d.completing i = some ioop ∧ i.ends = true) := by
  rcases ioIntHandler_cases h with ⟨hnone, rfl⟩ | ⟨op, hcompleting, err, hcase⟩
  · simp [hdone, hnone]
  · rcases hcase with ⟨hagain, rfl⟩ | ⟨hfinal, d₁, rfl, rfl⟩
    · rw [hcompleting]
      refine iff_of_false (by simp [hdone]) ?_
      rintro ⟨heq, hends⟩
      obtain rfl := Option.some.inj heq
      rw [ioOpErr_eq_eagain hown, hends] at hagain
      cases hagain
    · rw [hcompleting]
      by_cases hop : op = ioop
      · subst hop
        rw [ne_eq, ioOpErr_eq_eagain hown, Bool.not_eq_false] at hfinal
        refine iff_of_true ?_ ⟨rfl, hfinal⟩
        exact Function.update_self (β := fun _ => Bool) op true _
      · refine iff_of_false ?_ fun heq => hop (Option.some.inj heq.1)
        show ¬ (Function.update (_submitIo { d with err, qCur := none } cc).done op true ioop =
            true)
        rw [Function.update_of_ne (Ne.symm hop), (submitIo_frame _ cc).2.2.2.1]
        simp [hdone]

/-- **`submit_io` wakes up exactly when an interrupt ends the operation.** -/
theorem sleepUntilDone_isSome (hown : own ioop = false) (hdone : d.done ioop = false)
    (is : List (IoInt × BitVec 2)) :
    (sleepUntilDone own ioop d is).isSome =
      ((presented own ioop d is).find? IoInt.ends).isSome := by
  induction is generalizing d with
  | nil => simp [sleepUntilDone, presented, hdone]
  | cons x is ih =>
    obtain ⟨i, cc⟩ := x
    rw [sleepUntilDone, presented, hdone, if_neg Bool.false_ne_true, List.find?_append]
    cases hstep : _ioIntHandler own d i cc with
    | none =>
      -- a `BUG_ON` is for no operation in flight
      have hnone : d.completing i = none := by
        unfold _ioIntHandler at hstep
        split at hstep
        · cases hstep
        · assumption
      simp [hnone]
    | some d' =>
      rw [Option.bind_some]
      dsimp only
      have hiff := ioIntHandler_done hown hdone hstep
      by_cases hover : d.completing i = some ioop ∧ i.ends = true
      · have hwake : sleepUntilDone own ioop d' is = some d' := by
          cases is with
          | nil => rw [sleepUntilDone, if_pos (hiff.2 hover)]
          | cons x is => rw [sleepUntilDone, if_pos (hiff.2 hover)]
        rw [hwake, if_pos hover.1, List.find?_singleton, if_pos hover.2]
        rfl
      · have hnot : d'.done ioop = false := Bool.eq_false_iff.2 (mt hiff.1 hover)
        have hnext : (if d.completing i = some ioop then [i] else []).find? IoInt.ends = none := by
          by_cases hfor : d.completing i = some ioop
          · rw [if_pos hfor, List.find?_singleton, if_neg fun hends => hover ⟨hfor, hends⟩]
          · rw [if_neg hfor, List.find?_nil]
        rw [hnext, Option.none_or, ih hnot]

/-! ### What a read returns -/

/-- **A read that ended well is the only one that succeeds:** `bdev_read_block`
returns 0, and `bcache_read` returns a block, only after Device End without Unit
Check; otherwise both return an error and the entry stays without data. -/
def ReadHonest (read : Bool) (own : Op → Bool) (d : IoDev Op) (ioop : Op) (cc : BitVec 2)
    (is : List (IoInt × BitVec 2)) (lba : Int) : Prop :=
  ∀ d' ret, bdevReadBlock read own d ioop cc is lba = some (d', ret) →
    (ret = 0 → ∃ i, endsWith own d ioop cc is = some i ∧ i.good = true) ∧
    ∀ (buf : DiskBlock) (n : ℕ) (s : Bcache) (cur : BcacheEntry),
      s.entries[n]? = some cur → cur.data = none →
      ((∃ i, endsWith own d ioop cc is = some i ∧ i.good = true) ∧
        (bcacheReadBlock buf n s ret).1 = .ok buf) ∨
      (∃ e, (bcacheReadBlock buf n s ret).1 = .error e) ∧
        (bcacheReadBlock buf n s ret).2.entries[n]? = some cur

/-- An entry gets data from a read that returns 0 and from no other. -/
theorem bcacheReadBlock_cases (buf : DiskBlock) {n : ℕ} {s : Bcache} {cur : BcacheEntry}
    (ret : Int) (hcur : s.entries[n]? = some cur) (hdata : cur.data = none) :
    (ret = 0 ∧ (bcacheReadBlock buf n s ret).1 = .ok buf) ∨
    (ret ≠ 0 ∧ (bcacheReadBlock buf n s ret).1 = .error ret ∧
      (bcacheReadBlock buf n s ret).2.entries[n]? = some cur) := by
  unfold bcacheReadBlock bcacheFound
  simp only [hcur, hdata, Nat.left_eq_add, one_ne_zero, if_false, ne_eq, not_true, if_true]
  by_cases hret : ret = 0
  · simp [hret]
  · simp [hret, hcur]

/-- What `bdev_read_block` returns, and when. -/
theorem bdevReadBlock_cases (own : Op → Bool) (d : IoDev Op) (ioop : Op) (cc : BitVec 2)
    (is : List (IoInt × BitVec 2)) {read : Bool} {lba : Int} :
    ((read = false ∨ lba < 1) ∧ bdevReadBlock read own d ioop cc is lba = some (d, -einval)) ∨
    (¬ (read = false ∨ lba < 1) ∧
      ((endsWith own d ioop cc is = none ∧ bdevReadBlock read own d ioop cc is lba = none) ∨
      ∃ i d', endsWith own d ioop cc is = some i ∧
        bdevReadBlock read own d ioop cc is lba = some (d', 0))) := by
  by_cases hrefused : read = false ∨ lba < 1
  · refine Or.inl ⟨hrefused, ?_⟩
    unfold bdevReadBlock d3390Read
    rcases hrefused with rfl | hlba
    · rfl
    · rw [if_pos hlba, ite_self]
  · refine Or.inr ⟨hrefused, ?_⟩
    rw [not_or, Bool.not_eq_false] at hrefused
    have hcall : bdevReadBlock read own d ioop cc is lba
        = (sleepUntilDone (Function.update own ioop false) ioop
            (queueIoOp (prepareIoOp d ioop) ioop cc).1 is).map fun d => (d, 0) := by
      unfold bdevReadBlock d3390Read submitIo
      rw [hrefused.1, if_neg (by simp), if_neg hrefused.2]
      rfl
    have hdone : (queueIoOp (prepareIoOp d ioop) ioop cc).1.done ioop = false := by
      show (_submitIo _ cc).done ioop = false
      rw [(submitIo_frame _ cc).2.2.2.1]
      exact Function.update_self ..
    have hwakes := sleepUntilDone_isSome (Function.update_self ioop false own) hdone is
    rw [hcall]
    cases hend : endsWith own d ioop cc is with
    | none =>
      rw [show List.find? _ _ = none from hend, Option.isSome_none,
        Option.isSome_eq_false_iff, Option.isNone_iff_eq_none] at hwakes
      rw [hwakes]
      exact Or.inl ⟨rfl, rfl⟩
    | some i =>
      rw [show List.find? _ _ = some i from hend, Option.isSome_some] at hwakes
      obtain ⟨d', hd'⟩ := Option.isSome_iff_exists.1 hwakes
      rw [hd']
      exact Or.inr ⟨i, d', rfl, rfl⟩

/-- **Exactly when a read is honest:** it is refused before any I/O, or no interrupt ends
its channel program, or the first that does has a good status. `d3390_read` does not look at
`ioop.err`, so a unit check behind a good start is taken for data. -/
theorem readHonest_iff (read : Bool) (own : Op → Bool) (d : IoDev Op) (ioop : Op) (cc : BitVec 2)
    (is : List (IoInt × BitVec 2)) (lba : Int) :
    ReadHonest read own d ioop cc is lba ↔
      read = false ∨ lba < 1 ∨ ∀ i, endsWith own d ioop cc is = some i → i.good = true := by
  rw [← or_assoc]
  rcases bdevReadBlock_cases own d ioop cc is with
    ⟨hrefused, hcall⟩ | ⟨hissued, ⟨hnone, hcall⟩ | ⟨i, d₁, hend, hcall⟩⟩
  · refine iff_of_true ?_ (Or.inl hrefused)
    rintro d' ret heq
    rw [hcall] at heq
    obtain ⟨-, rfl⟩ := Prod.mk.inj (Option.some.inj heq)
    refine ⟨fun h => absurd h (by decide), fun buf n s cur hcur hdata => Or.inr ?_⟩
    rcases bcacheReadBlock_cases buf (-einval) hcur hdata with ⟨hzero, -⟩ | ⟨-, herr, hentry⟩
    · exact absurd hzero (by decide)
    · exact ⟨⟨_, herr⟩, hentry⟩
  · refine iff_of_true ?_ (Or.inr fun i hend => absurd (hnone.symm.trans hend) (by simp))
    rintro d' ret heq
    rw [hcall] at heq
    cases heq
  · constructor
    · intro h
      obtain ⟨j, hj, hgood⟩ := (h d₁ 0 hcall).1 rfl
      exact Or.inr fun k hk => Option.some.inj (hj.symm.trans hk) ▸ hgood
    · rintro (hrefused | hgood)
      · exact absurd hrefused hissued
      · rintro d' ret heq
        rw [hcall] at heq
        obtain ⟨-, rfl⟩ := Prod.mk.inj (Option.some.inj heq)
        refine ⟨fun _ => ⟨i, hend, hgood i hend⟩, fun buf n s cur hcur hdata => Or.inl ?_⟩
        rcases bcacheReadBlock_cases buf 0 hcur hdata with ⟨-, hok⟩ | ⟨hzero, -⟩
        · exact ⟨⟨i, hend, hgood i hend⟩, hok⟩
        · exact absurd rfl hzero

/-- **A read is not honest:** the device presents Channel End, Device End and Unit Check,
and 0 is returned with whatever the buffer had. -/
theorem not_readHonest :
    ¬ ∀ (is : List (IoInt × BitVec 2)) (lba : Int),
      ReadHonest true (fun _ : Unit => false)
        (.fresh 0x10000 0 0 (fun _ => 0) (fun _ => 0) fun _ => false) () 0 is lba := by
  intro hall
  obtain ⟨i, hend, hgood⟩ := (hall [(⟨0x10000, 1, 0, 0x0e, 0⟩, 0)] 1 _ 0 rfl).1 rfl
  have hi : endsWith (fun _ : Unit => false)
      (.fresh 0x10000 0 0 (fun _ => 0) (fun _ => 0) fun _ => false) () 0
      [(⟨0x10000, 1, 0, 0x0e, 0⟩, 0)] = some ⟨0x10000, 1, 0, 0x0e, 0⟩ := rfl
  obtain rfl := Option.some.inj (hi.symm.trans hend)
  exact absurd hgood (by decide)

end

end Hvf
