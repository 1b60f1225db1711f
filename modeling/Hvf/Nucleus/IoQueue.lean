/-
# The I/O queue is first in, first out

The operations put on `q_out`, in order, are at every moment those done, the one
in flight and those still on `q_out` (`IoInv`).  With the operations distinct
this is all there is to say about their places: `ioQueue_sound`.

A start that the subchannel refuses leaves the operation at the head of `q_out`.
Nothing issues it again until the next submission, and `submit_io` returns 0
whatever happened, so nobody learns of the error: `ioQueue_stuck_iff`.
-/

import Hvf.Nucleus.Io

namespace Hvf

open StepRun

variable {Op : Type*} [DecidableEq Op] {own : Op → Bool}

/-! ### What a step can do -/

/-- `__submit_io` starts the first operation of `q_out`, or sets at most an
`err`; a start that could have been issued was refused then. -/
theorem submitIo_cases (d : IoDev Op) (cc : BitVec 2) :
    (d.qCur = none ∧ startSch cc = 0 ∧ ∃ ioop rest, d.qOut = ioop :: rest ∧
      _submitIo d cc =
        { d with qOut := rest, qCur := some ioop, started := d.started ++ [ioop] }) ∨
    ((d.qCur = none → d.qOut = [] ∨ startSch cc ≠ 0) ∧ ∃ err, _submitIo d cc = { d with err }) := by
  cases hcur : d.qCur with
  | some op =>
    have hsame : _submitIo d cc = d := by simp only [_submitIo, hcur]
    exact Or.inr ⟨fun hnone => absurd hnone (by simp), d.err, hsame.trans (by rw [← hcur])⟩
  | none =>
    cases hout : d.qOut with
    | nil =>
      have hsame : _submitIo d cc = d := by simp only [_submitIo, hcur, hout]
      exact Or.inr ⟨fun _ => Or.inl rfl, d.err, hsame.trans (by rw [← hcur, ← hout])⟩
    | cons ioop rest =>
      by_cases hstart : startSch cc = 0
      · refine Or.inl ⟨rfl, hstart, ioop, rest, rfl, ?_⟩
        simp only [_submitIo, hcur, hout, hstart, if_true]
      · refine Or.inr ⟨fun _ => Or.inr hstart, Function.update d.err ioop (startSch cc), ?_⟩
        simp only [_submitIo, hcur, hout, hstart, if_false]

omit [DecidableEq Op] in
/-- **When an interruption completes an operation**: it is the one under way, and parameter and
subchannel are its own. -/
theorem completing_eq_some {d : IoDev Op} {i : IoInt} {ioop : Op} :
    d.completing i = some ioop ↔ d.qCur = some ioop ∧ d.param ioop = i.param ∧ d.sch = i.ssid := by
  rw [IoDev.completing, Option.filter_eq_some_iff, decide_eq_true_eq]

/-- An interrupt that is not for an operation in flight leaves the queue alone;
one that is leaves the operation in flight, or completes it and goes on with the
next one. -/
theorem ioIntHandler_cases {d d' : IoDev Op} {i : IoInt} {cc : BitVec 2}
    (h : _ioIntHandler own d i cc = some d') :
    (d.completing i = none ∧ d' = { d with attention := d.attention + 1 }) ∨
    ∃ ioop, d.completing i = some ioop ∧ ∃ err,
      (ioOpErr own ioop i = -eagain ∧ d' = { d with err }) ∨
      (ioOpErr own ioop i ≠ -eagain ∧ ∃ d₁, d₁ = _submitIo { d with err, qCur := none } cc ∧
        d' = { d₁ with
          done := Function.update d₁.done ioop true
          finished := d₁.finished ++ [ioop] }) := by
  unfold _ioIntHandler at h
  split at h
  case h_1 ioop hcompleting =>
    refine Or.inr ⟨ioop, hcompleting, Function.update d.err ioop (ioOpErr own ioop i), ?_⟩
    obtain rfl := Option.some.inj h
    unfold _cpuInitiatedIo
    by_cases herr : ioOpErr own ioop i = -eagain
    · exact Or.inl ⟨herr, if_pos herr⟩
    · exact Or.inr ⟨herr, _, rfl, if_neg herr⟩
  case h_2 hcompleting =>
    split at h
    · cases h
    · exact Or.inl ⟨hcompleting, (Option.some.inj h).symm⟩

/-! ### The invariant -/

/-- **The invariant of a device's queue.** Operations are started in the order submitted,
finished in the order started, each once, and marked done exactly when finished. -/
structure IoInv (d : IoDev Op) : Prop where
  order : d.submitted = d.started ++ d.qOut
  flight : d.started = d.finished ++ d.qCur.toList
  nodup : d.submitted.Nodup
  prepared : ∀ ioop ∈ d.submitted, ioop ∈ d.prepared
  done : ∀ ioop ∈ d.prepared, d.done ioop = true ↔ ioop ∈ d.finished

omit [DecidableEq Op] in
/-- A device just set up has an empty queue. -/
theorem ioInv_fresh (sch attention opIdCounter : BitVec 32) (param : Op → BitVec 32)
    (err : Op → Int) (done : Op → Bool) :
    IoInv (IoDev.fresh sch attention opIdCounter param err done) :=
  ⟨rfl, rfl, List.nodup_nil, by simp [IoDev.fresh], by simp [IoDev.fresh]⟩

/-- What `__submit_io` keeps when nothing is in flight. -/
theorem submitIo_order {d : IoDev Op} (cc : BitVec 2) (order : d.submitted = d.started ++ d.qOut)
    (hcur : d.qCur = none) :
    (_submitIo d cc).submitted = (_submitIo d cc).started ++ (_submitIo d cc).qOut ∧
      (_submitIo d cc).started = d.started ++ (_submitIo d cc).qCur.toList := by
  rcases submitIo_cases d cc with ⟨_, _, ioop, rest, hout, hd⟩ | ⟨_, err, hd⟩
  · rw [hd]
    simp only [order, hout, List.append_assoc, List.singleton_append, Option.toList_some,
      and_self]
  · rw [hd]
    simp only [order, hcur, Option.toList_none, List.append_nil, and_self]

/-- What `__submit_io` never changes. -/
theorem submitIo_frame (d : IoDev Op) (cc : BitVec 2) :
    (_submitIo d cc).submitted = d.submitted ∧ (_submitIo d cc).finished = d.finished ∧
      (_submitIo d cc).prepared = d.prepared ∧ (_submitIo d cc).done = d.done ∧
      (_submitIo d cc).param = d.param := by
  rcases submitIo_cases d cc with ⟨_, _, ioop, rest, _, hd⟩ | ⟨_, err, hd⟩ <;> rw [hd] <;>
    exact ⟨rfl, rfl, rfl, rfl, rfl⟩

/-- Queueing an operation that is new keeps the invariant, whatever the start returns. -/
theorem ioInv_queue {d : IoDev Op} (h : IoInv d) {ioop : Op} (hprep : ioop ∈ d.prepared)
    (hnew : ioop ∉ d.submitted) (cc : BitVec 2) : IoInv (queueIoOp d ioop cc).1 := by
  have horder : d.submitted ++ [ioop] = d.started ++ (d.qOut ++ [ioop]) := by
    rw [h.order, List.append_assoc]
  have hnodup : (d.submitted ++ [ioop]).Nodup := by
    rw [← List.concat_eq_append]
    exact h.nodup.concat hnew
  have hprepared : ∀ op ∈ d.submitted ++ [ioop], op ∈ d.prepared := by
    intro op hop
    rcases List.mem_append.1 hop with hop | hop
    · exact h.prepared op hop
    · rwa [List.mem_singleton.1 hop]
  rw [queueIoOp]
  rcases submitIo_cases { d with qOut := d.qOut ++ [ioop], submitted := d.submitted ++ [ioop] } cc
    with ⟨hcur, _, op, rest, hout, hd⟩ | ⟨_, err, hd⟩
  · rw [hd]
    refine ⟨?_, ?_, hnodup, hprepared, h.done⟩
    · change d.submitted ++ [ioop] = (d.started ++ [op]) ++ rest
      rw [horder, List.append_assoc]
      exact congrArg _ hout
    · change d.started ++ [op] = d.finished ++ [op]
      have hflight := h.flight
      rw [show d.qCur = none from hcur, Option.toList_none, List.append_nil] at hflight
      rw [hflight]
  · rw [hd]
    exact ⟨horder, h.flight, hnodup, hprepared, h.done⟩

/-- An interruption keeps it, expected or not. -/
theorem ioInv_interrupt {d d' : IoDev Op} (h : IoInv d) {i : IoInt} {cc : BitVec 2}
    (hint : _ioIntHandler own d i cc = some d') : IoInv d' := by
  rcases ioIntHandler_cases hint with
    ⟨_, rfl⟩ | ⟨ioop, hcompleting, err, ⟨_, rfl⟩ | ⟨_, d₁, hd₁, rfl⟩⟩
  · exact ⟨h.order, h.flight, h.nodup, h.prepared, h.done⟩
  · exact ⟨h.order, h.flight, h.nodup, h.prepared, h.done⟩
  · have hcur := (completing_eq_some.1 hcompleting).1
    have hflight : d.started = d.finished ++ [ioop] := by
      rw [h.flight, hcur, Option.toList_some]
    obtain ⟨hsub, hfin, hprep, hdone, _⟩ := submitIo_frame { d with err, qCur := none } cc
    obtain ⟨horder, hstarted⟩ := submitIo_order (d := { d with err, qCur := none }) cc h.order rfl
    rw [← hd₁] at hsub hfin hprep hdone horder hstarted
    constructor
    case order => exact horder
    case flight =>
      change d₁.started = (d₁.finished ++ [ioop]) ++ d₁.qCur.toList
      rw [hstarted, hfin]
      exact congrArg (· ++ d₁.qCur.toList) hflight
    case nodup =>
      change d₁.submitted.Nodup
      rw [hsub]
      exact h.nodup
    case prepared =>
      change ∀ op ∈ d₁.submitted, op ∈ d₁.prepared
      rw [hsub, hprep]
      exact h.prepared
    case done =>
      change ∀ op ∈ d₁.prepared,
        Function.update d₁.done ioop true op = true ↔ op ∈ d₁.finished ++ [ioop]
      rw [hprep, hdone, hfin]
      intro op hop
      by_cases heq : op = ioop
      · subst heq
        simp
      · rw [Function.update_of_ne heq, h.done op hop, List.mem_append, List.mem_singleton]
        exact ⟨Or.inl, fun hmem => hmem.resolve_right heq⟩

/-- So every event keeps it. -/
theorem ioInv_step {d d' : IoDev Op} {e : IoEvent Op} (h : IoInv d) (hstep : IoStep own d e d') :
    IoInv d' := by
  cases hstep with
  | prepare ioop hnew =>
    refine ⟨h.order, h.flight, h.nodup,
      fun op hop => List.mem_append_left _ (h.prepared op hop), ?_⟩
    have hfinished : ∀ op ∈ d.finished, op ∈ d.prepared := fun op hop =>
      h.prepared op (by
        rw [h.order, h.flight]
        exact List.mem_append_left _ (List.mem_append_left _ hop))
    change ∀ op ∈ d.prepared ++ [ioop],
      Function.update d.done ioop false op = true ↔ op ∈ d.finished
    intro op hop
    by_cases heq : op = ioop
    · subst heq
      rw [Function.update_self]
      exact ⟨fun hfalse => absurd hfalse (by simp), fun hmem => absurd (hfinished op hmem) hnew⟩
    · rw [Function.update_of_ne heq]
      refine h.done op ((List.mem_append.1 hop).resolve_right ?_)
      rwa [List.mem_singleton]
  | @queue _ ret ioop cc hprep hnew hqueue =>
    have hinv := ioInv_queue h hprep hnew cc
    rwa [hqueue] at hinv
  | interrupt i cc hint => exact ioInv_interrupt h hint
  | otherDevice => exact ⟨h.order, h.flight, h.nodup, h.prepared, h.done⟩

/-- It holds in every state of a run. -/
theorem ioInv_run {d₀ d : IoDev Op} {ls : List (IoEvent Op)} (h : IoInv d₀)
    (hrun : Run (IoStep own) d₀ ls d) : IoInv d :=
  hrun.invariant h fun _ _ _ => ioInv_step

/-! ### First in, first out, once -/

/-- Exactly one of three. -/
def ExactlyOne (a b c : Prop) : Prop :=
  (a ∧ ¬ b ∧ ¬ c) ∨ (¬ a ∧ b ∧ ¬ c) ∨ (¬ a ∧ ¬ b ∧ c)

/-- **What holds of the queue in every state**: one operation at most is in flight, they are
started in the order submitted, and each is in one place, waiting, in flight or done. -/
structure QueueSound (d : IoDev Op) : Prop where
  one_in_flight : ∀ ioop ∈ d.started, ioop ∉ d.finished → d.qCur = some ioop
  in_order : d.started <+: d.submitted
  place : ∀ ioop ∈ d.submitted,
    ExactlyOne (ioop ∈ d.qOut) (d.qCur = some ioop) (d.done ioop = true)
  queued_once : d.qOut.Nodup
  done_once : d.finished.Nodup
  done_iff : ∀ ioop ∈ d.submitted, d.done ioop = true ↔ ioop ∈ d.finished

/-- What holds of every step: an operation comes into flight by a `start_sch`
that succeeded, and `done` is set by the interrupt of the operation in flight. -/
structure QueueStep (d : IoDev Op) (e : IoEvent Op) (d' : IoDev Op) : Prop where
  starts : ∀ ioop, d'.qCur = some ioop → d.qCur ≠ some ioop →
    d'.started = d.started ++ [ioop] ∧
      ((∃ op cc ret, e = .queue op cc ret ∧ startSch cc = 0) ∨
        ∃ i cc, e = .interrupt i cc ∧ startSch cc = 0)
  finishes : d'.finished ≠ d.finished ∨ (∃ ioop, d.done ioop = false ∧ d'.done ioop = true) →
    ∃ ioop i cc, e = .interrupt i cc ∧ d.qCur = some ioop ∧ d.param ioop = i.param ∧
      d'.finished = d.finished ++ [ioop] ∧ d'.done = Function.update d.done ioop true

omit [DecidableEq Op] in
/-- The invariant gives what the queue promises. -/
theorem IoInv.sound {d : IoDev Op} (h : IoInv d) : QueueSound d := by
  have hall : d.submitted = d.finished ++ (d.qCur.toList ++ d.qOut) := by
    rw [h.order, h.flight, List.append_assoc]
  have hnodup := h.nodup
  rw [hall, List.nodup_append, List.nodup_append] at hnodup
  obtain ⟨hfin, ⟨_, hout, hcurout⟩, hfinrest⟩ := hnodup
  constructor
  case one_in_flight =>
    intro ioop hstarted hnot
    rw [h.flight, List.mem_append, Option.mem_toList] at hstarted
    exact hstarted.resolve_left hnot
  case in_order => exact ⟨d.qOut, h.order.symm⟩
  case queued_once => exact hout
  case done_once => exact hfin
  case done_iff => exact fun ioop hmem => h.done ioop (h.prepared ioop hmem)
  case place =>
    intro ioop hmem
    rw [h.done ioop (h.prepared ioop hmem)]
    rw [hall, List.mem_append, List.mem_append, Option.mem_toList] at hmem
    rcases hmem with hdone | hcur | hqueued
    · refine Or.inr (Or.inr ⟨fun hq => ?_, fun hc => ?_, hdone⟩)
      · exact hfinrest ioop hdone ioop (List.mem_append_right _ hq) rfl
      · exact hfinrest ioop hdone ioop (List.mem_append_left _ (Option.mem_toList.2 hc)) rfl
    · refine Or.inr (Or.inl ⟨fun hq => ?_, hcur, fun hd => ?_⟩)
      · exact hcurout ioop (Option.mem_toList.2 hcur) ioop hq rfl
      · exact hfinrest ioop hd ioop (List.mem_append_left _ (Option.mem_toList.2 hcur)) rfl
    · refine Or.inl ⟨hqueued, fun hc => ?_, fun hd => ?_⟩
      · exact hcurout ioop (Option.mem_toList.2 hc) ioop hqueued rfl
      · exact hfinrest ioop hd ioop (List.mem_append_right _ hqueued) rfl

/-- `__submit_io` brings an operation into flight only by a start that succeeded. -/
theorem submitIo_starts {d : IoDev Op} {cc : BitVec 2} {ioop : Op}
    (hcur : (_submitIo d cc).qCur = some ioop) (hnew : d.qCur ≠ some ioop) :
    (_submitIo d cc).started = d.started ++ [ioop] ∧ startSch cc = 0 := by
  rcases submitIo_cases d cc with ⟨_, hstart, op, rest, _, hd⟩ | ⟨_, err, hd⟩
  · rw [hd] at hcur ⊢
    obtain rfl := Option.some.inj hcur
    exact ⟨rfl, hstart⟩
  · rw [hd] at hcur
    exact absurd hcur hnew

/-- Every step is one of those promised. -/
theorem ioStep_sound {d d' : IoDev Op} {e : IoEvent Op} (hstep : IoStep own d e d') :
    QueueStep d e d' := by
  cases hstep with
  | prepare ioop hnew =>
    refine ⟨fun op hcur hne => absurd hcur hne, fun hfin => ?_⟩
    rcases hfin with hfin | ⟨op, hfalse, htrue⟩
    · exact absurd rfl hfin
    · change Function.update d.done ioop false op = true at htrue
      by_cases heq : op = ioop
      · rw [heq, Function.update_self] at htrue
        cases htrue
      · rw [Function.update_of_ne heq, hfalse] at htrue
        cases htrue
  | @queue _ ret ioop cc _ _ hqueue =>
    obtain ⟨rfl, rfl⟩ := Prod.mk.inj hqueue
    obtain ⟨_, hfin, _, hdone, _⟩ := submitIo_frame
      { d with qOut := d.qOut ++ [ioop], submitted := d.submitted ++ [ioop] } cc
    refine ⟨fun op hcur hne => ?_, fun hchange => ?_⟩
    · obtain ⟨hstarted, hstart⟩ := submitIo_starts hcur hne
      exact ⟨hstarted, Or.inl ⟨ioop, cc, 0, rfl, hstart⟩⟩
    · rcases hchange with hchange | ⟨op, hfalse, htrue⟩
      · exact absurd hfin hchange
      · rw [hdone] at htrue
        exact absurd (hfalse.symm.trans htrue) (by simp)
  | interrupt i cc hint =>
    rcases ioIntHandler_cases hint with
      ⟨_, rfl⟩ | ⟨ioop, hcompleting, err, ⟨_, rfl⟩ | ⟨_, d₁, hd₁, rfl⟩⟩
    · refine ⟨fun op hcur hne => absurd hcur hne, fun hchange => ?_⟩
      rcases hchange with hchange | ⟨op, hfalse, htrue⟩
      · exact absurd rfl hchange
      · exact absurd (hfalse.symm.trans htrue) (by simp)
    · refine ⟨fun op hcur hne => absurd hcur hne, fun hchange => ?_⟩
      rcases hchange with hchange | ⟨op, hfalse, htrue⟩
      · exact absurd rfl hchange
      · exact absurd (hfalse.symm.trans htrue) (by simp)
    · obtain ⟨hcur, hparam, _⟩ := completing_eq_some.1 hcompleting
      obtain ⟨_, hfin, _, hdone, _⟩ := submitIo_frame { d with err, qCur := none } cc
      rw [← hd₁] at hfin hdone
      refine ⟨fun op hop _ => ?_, fun _ => ⟨ioop, i, cc, rfl, hcur, hparam, ?_, ?_⟩⟩
      · rw [show _ = d₁.qCur from rfl, hd₁] at hop
        obtain ⟨hstarted, hstart⟩ := submitIo_starts hop (by simp)
        rw [← hd₁] at hstarted
        exact ⟨hstarted, Or.inr ⟨i, cc, rfl, hstart⟩⟩
      · exact congrArg (· ++ [ioop]) hfin
      · exact congrArg (Function.update · ioop true) hdone
  | otherDevice =>
    refine ⟨fun op hcur hne => absurd hcur hne, fun hchange => ?_⟩
    rcases hchange with hchange | ⟨op, hfalse, htrue⟩
    · exact absurd rfl hchange
    · exact absurd (hfalse.symm.trans htrue) (by simp)

/-- **The I/O queue of a device.**  After any interleaving of submissions and
interrupts, started with an empty queue: at most one operation is in flight, the
operations were started in the order they were submitted, each is in exactly one
of `q_out`, `q_cur` and the done ones, and none was set done twice; and in every
next step an operation comes into flight only by a `start_sch` that succeeds, and
is set done only by an interrupt with its parameter while it is in flight. -/
theorem ioQueue_sound (own : Op → Bool) (sch attention opIdCounter : BitVec 32)
    (param : Op → BitVec 32) (err : Op → Int) (done : Op → Bool) {ls : List (IoEvent Op)}
    {d : IoDev Op}
    (hrun : Run (IoStep own) (IoDev.fresh sch attention opIdCounter param err done) ls d) :
    QueueSound d ∧ ∀ e d', IoStep own d e d' → QueueStep d e d' :=
  ⟨(ioInv_run (ioInv_fresh sch attention opIdCounter param err done) hrun).sound,
    fun _ _ => ioStep_sound⟩

/-- A device with number 7 and two operations that have no handler. -/
def idleDev : IoDev Bool := IoDev.fresh 7 0 0 (fun _ => 0) (fun _ => 0) fun _ => true

/-- Two operations, the second one queued first; the interrupt that completes it
cannot start the other. -/
theorem ioQueue_sound_two : ∃ (ls : List (IoEvent Bool)) (d : IoDev Bool),
    Run (IoStep fun _ => false) idleDev ls d ∧ d.finished = [true] ∧ d.qOut = [false] ∧
      QueueSound d := by
  have hrun : Run (IoStep fun _ => false) idleDev [] idleDev := Run.nil
  have hrun := hrun.snoc (IoStep.prepare false (by decide))
  have hrun := hrun.snoc (IoStep.prepare true (by decide))
  have hrun := hrun.snoc (IoStep.queue true 0 (by decide) (by decide) rfl)
  have hrun := hrun.snoc (IoStep.queue false 0 (by decide) (by decide) rfl)
  have hrun := hrun.snoc (IoStep.interrupt ⟨7, 2, 0, 0x04, 0⟩ 1 rfl)
  exact ⟨_, _, hrun, rfl, rfl, (ioQueue_sound _ _ _ _ _ _ _ hrun).1⟩

/-! ### Refused starts -/

/-- No operation waits for ever: with nothing in flight, every operation on
`q_out` has been marked done or its submission has returned an error. -/
def NoStuckIo (ls : List (IoEvent Op)) (d : IoDev Op) : Prop :=
  d.qCur = none → ∀ ioop ∈ d.qOut, d.done ioop = true ∨
    ∃ cc ret, IoEvent.queue ioop cc ret ∈ ls ∧ ret ≠ 0

/-- If the event issues a `start_sch`, the subchannel accepts it. -/
def StartAccepted (own : Op → Bool) (d : IoDev Op) : IoEvent Op → Prop
  | .queue _ cc _ => d.qCur = none → startSch cc = 0
  | .interrupt i cc => (∃ ioop, d.completing i = some ioop ∧ ioOpErr own ioop i ≠ -eagain) →
      d.qOut ≠ [] → startSch cc = 0
  | _ => True

/-- `submit_io` never returns an error. -/
theorem ioRun_ret {d₀ d : IoDev Op} {ls : List (IoEvent Op)} (hrun : Run (IoStep own) d₀ ls d) :
    ∀ ioop cc ret, IoEvent.queue ioop cc ret ∈ ls → ret = 0 := by
  induction hrun with
  | nil => exact fun _ _ _ hmem => absurd hmem (by simp)
  | snoc _ hlast ih =>
    intro ioop cc ret hmem
    rcases List.mem_append.1 hmem with hmem | hmem
    · exact ih ioop cc ret hmem
    · rw [List.mem_singleton] at hmem
      subst hmem
      cases hlast with
      | queue _ _ _ _ hqueue => exact (Prod.mk.inj hqueue).2.symm

/-- In a reachable state an operation on `q_out` is neither done nor reported, so
none may be there with nothing in flight. -/
theorem noStuckIo_iff {d₀ d : IoDev Op} {ls : List (IoEvent Op)} (h : IoInv d)
    (hrun : Run (IoStep own) d₀ ls d) : NoStuckIo ls d ↔ (d.qCur = none → d.qOut = []) := by
  constructor
  · intro hno hcur
    rw [List.eq_nil_iff_forall_not_mem]
    intro ioop hqueued
    rcases hno hcur ioop hqueued with hdone | ⟨cc, ret, hmem, hret⟩
    · have hmem : ioop ∈ d.submitted := by
        rw [h.order]
        exact List.mem_append_right _ hqueued
      rcases h.sound.place ioop hmem with ⟨_, _, hnot⟩ | ⟨hnot, _⟩ | ⟨hnot, _⟩
      · exact hnot hdone
      · exact hnot hqueued
      · exact hnot hqueued
    · exact hret (ioRun_ret hrun ioop cc ret hmem)
  · intro hempty hcur ioop hqueued
    rw [hempty hcur] at hqueued
    exact absurd hqueued (by simp)

/-- `__submit_io` leaves work waiting with nothing in flight exactly if a start
it issues is refused. -/
theorem submitIo_empty_iff (d : IoDev Op) (cc : BitVec 2) :
    ((_submitIo d cc).qCur = none → (_submitIo d cc).qOut = []) ↔
      (d.qCur = none → d.qOut ≠ [] → startSch cc = 0) := by
  rcases submitIo_cases d cc with ⟨hcur, hstart, op, rest, hout, hd⟩ | ⟨hrefused, err, hd⟩
  · rw [hd]
    exact ⟨fun _ _ _ => hstart, fun _ hnone => absurd hnone (by simp)⟩
  · rw [hd]
    refine ⟨fun hempty hcur hne => absurd (hempty hcur) hne, fun hok hcur => ?_⟩
    by_contra hne
    exact (hrefused hcur).elim hne fun hbad => hbad (hok hcur hne)

/-- **A step leaves no operation stuck** exactly when its start is accepted. -/
theorem ioStep_empty_iff {d d' : IoDev Op} {e : IoEvent Op} (hstep : IoStep own d e d')
    (hempty : d.qCur = none → d.qOut = []) :
    (d'.qCur = none → d'.qOut = []) ↔ StartAccepted own d e := by
  cases hstep with
  | prepare _ _ => exact ⟨fun _ => trivial, fun _ => hempty⟩
  | @queue _ ret ioop cc _ _ hqueue =>
    obtain ⟨rfl, rfl⟩ := Prod.mk.inj hqueue
    refine (submitIo_empty_iff _ cc).trans ⟨fun hok hcur => ?_, fun hok hcur _ => hok hcur⟩
    exact hok hcur (by simp)
  | interrupt i cc hint =>
    rcases ioIntHandler_cases hint with
      ⟨hnone, rfl⟩ | ⟨ioop, hcompleting, err, ⟨hagain, rfl⟩ | ⟨hend, d₁, hd₁, rfl⟩⟩
    · refine ⟨fun _ ⟨op, hop, _⟩ => ?_, fun _ => hempty⟩
      rw [hnone] at hop
      cases hop
    · refine ⟨fun _ ⟨op, hop, herr⟩ => ?_, fun _ => hempty⟩
      rw [hcompleting] at hop
      obtain rfl := Option.some.inj hop
      exact absurd hagain herr
    · change (d₁.qCur = none → d₁.qOut = []) ↔ _
      rw [hd₁, submitIo_empty_iff]
      exact ⟨fun hok _ => hok rfl, fun hok _ => hok ⟨ioop, hcompleting, hend⟩⟩
  | otherDevice => exact ⟨fun _ => trivial, fun _ => hempty⟩

/-- A step has one outcome. -/
theorem ioStep_deterministic (d : IoDev Op) (e : IoEvent Op) (d' d'' : IoDev Op)
    (hstep : IoStep own d e d') (hstep' : IoStep own d e d'') : d' = d'' := by
  cases hstep with
  | prepare _ _ => cases hstep' with | prepare _ _ => rfl
  | queue _ _ _ _ hqueue =>
    cases hstep' with
    | queue _ _ _ _ hqueue' => exact (Prod.mk.inj (hqueue.symm.trans hqueue')).1
  | interrupt _ _ hint =>
    cases hstep' with
    | interrupt _ _ hint' => exact Option.some.inj (hint.symm.trans hint')
  | otherDevice => cases hstep' with | otherDevice => rfl

/-- **When no operation gets stuck.**  In every state of a run there is either
something in flight or nothing that waits unreported, exactly if the subchannel
accepts every `start_sch` of the run. -/
theorem ioQueue_stuck_iff (own : Op → Bool) (sch attention opIdCounter : BitVec 32)
    (param : Op → BitVec 32) (err : Op → Int) (done : Op → Bool) {ls : List (IoEvent Op)}
    {d : IoDev Op}
    (hrun : Run (IoStep own) (IoDev.fresh sch attention opIdCounter param err done) ls d) :
    (∀ ls' d', ls' <+: ls →
        Run (IoStep own) (IoDev.fresh sch attention opIdCounter param err done) ls' d' →
        NoStuckIo ls' d') ↔
      Run (guarded (StartAccepted own) (IoStep own))
        (IoDev.fresh sch attention opIdCounter param err done) ls d := by
  have hinit := ioInv_fresh sch attention opIdCounter param err done
  refine Run.always_iff ioStep_deterministic
    (fun _ ioop hmem => absurd hmem (by simp [IoDev.fresh]))
    (fun ls t l u hguarded hno hstep => ?_) hrun
  have hbefore := hguarded.of_guarded
  have hinv := ioInv_run hinit hbefore
  rw [noStuckIo_iff (ioInv_step hinv hstep) (hbefore.snoc hstep)]
  exact ioStep_empty_iff hstep ((noStuckIo_iff hinv hbefore).1 hno)

/-- A start that is accepted: the operation is in flight, and the queue is not stuck. -/
theorem ioQueue_stuck_iff_accepted : ∃ (ls : List (IoEvent Bool)) (d : IoDev Bool),
    Run (guarded (StartAccepted fun _ => false) (IoStep fun _ => false)) idleDev ls d ∧
      d.qCur = some true ∧ NoStuckIo ls d := by
  have hprepare : IoStep (fun _ => false) idleDev (.prepare true) (prepareIoOp idleDev true) :=
    IoStep.prepare true (by decide)
  have hqueue : IoStep (fun _ => false) (prepareIoOp idleDev true) (.queue true 0 0)
      (queueIoOp (prepareIoOp idleDev true) true 0).1 :=
    IoStep.queue true 0 (by decide) (by decide) rfl
  have hrun := (Run.nil.snoc hprepare).snoc hqueue
  have hfirst : StartAccepted (fun _ => false) idleDev (.prepare true) := trivial
  have haccepted : StartAccepted (fun _ => false) (prepareIoOp idleDev true) (.queue true 0 0) :=
    fun _ => by decide
  have hguarded :
      Run (guarded (StartAccepted fun _ => false) (IoStep fun _ => false)) idleDev _ _ :=
    (Run.nil.snoc ⟨hfirst, hprepare⟩).snoc ⟨haccepted, hqueue⟩
  exact ⟨_, _, hguarded, rfl,
    (ioQueue_stuck_iff _ _ _ _ _ _ _ hrun).2 hguarded _ _ (List.prefix_refl _) hrun⟩

/-- A start refused with condition code 1: `submit_io` returns 0 and the
operation waits with nothing in flight. -/
theorem ioQueue_stuck_busy : ∃ (ls : List (IoEvent Bool)) (d : IoDev Bool),
    Run (IoStep fun _ => false) idleDev ls d ∧ ¬ NoStuckIo ls d := by
  have hrun : Run (IoStep fun _ => false) idleDev [] idleDev := Run.nil
  have hrun := hrun.snoc (IoStep.prepare true (by decide))
  have hrun := hrun.snoc (IoStep.queue true 1 (by decide) (by decide) rfl)
  refine ⟨_, _, hrun, fun hno => ?_⟩
  have hinv := ioInv_run (ioInv_fresh 7 0 0 (fun _ => 0) (fun _ => 0) fun _ => true) hrun
  exact absurd ((noStuckIo_iff hinv hrun).1 hno rfl) (by decide)

end Hvf
