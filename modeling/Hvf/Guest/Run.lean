/-
# I/O interruptions of a guest

`__do_psw_swap`, `__io_int` and `run_guest` of `cp/guest/run.c`, with
`queue_io_interrupt`.  An interruption of subclass `i` waits at the end of
`int_io[i]`.  When `run_guest` finds one that the guest PSW and control register
6 let through, it takes it off its queue, translates guest page 0 and stores it
there; only then is it known whether the page is there.

What SIE does to the guest, and what happens to masks, storage and translation
between two steps, is arbitrary.  A history records every interruption that was
queued and every one that was presented.
-/

import Hvf.Guest.InstructionPriv

namespace Hvf

open StepRun

/-! ### The source functions -/

/-- What `run_guest` uses of a `struct virt_sys`: `gpsw` and `gcr6` are in the
SIE control block, `zarch` is `VCPU_ZARCH`. -/
structure RunCpu where
  guest : Guest
  gpsw : ℕ → UInt8
  gcr6 : BitVec 64
  zarch : Bool

/-- `psw->io`. -/
def pswIo (gpsw : ℕ → UInt8) : Bool := gpsw 0 &&& 0x02 != 0

/-- `psw->ex`. -/
def pswEx (gpsw : ℕ → UInt8) : Bool := gpsw 0 &&& 0x01 != 0

/-- `psw->m`. -/
def pswM (gpsw : ℕ → UInt8) : Bool := gpsw 1 &&& 0x04 != 0

/-- `psw->w`. -/
def pswW (gpsw : ℕ → UInt8) : Bool := gpsw 1 &&& 0x02 != 0

/-- `psw->cc`, which `Guest` has as a member of its own. -/
def pswCc (gpsw : ℕ → UInt8) : BitVec 2 := ((gpsw 2).toBitVec >>> 4).setWidth 2

/-- `__do_psw_swap`. -/
def _doPswSwap (gpsa old new len : ℕ) (s : RunCpu) : RunCpu :=
  let mem := memcpy s.guest.mem (gpsa + old) s.gpsw 0 len
  let gpsw := memcpy s.gpsw 0 mem (gpsa + new) len
  { s with guest := { s.guest with mem, cc := pswCc gpsw }, gpsw }

/-- `*((u32*) addr) = v`. -/
def storeWord (addr : ℕ) (v : BitVec 32) (s : RunCpu) : RunCpu :=
  { s with guest := { s.guest with mem := memcpy s.guest.mem addr (toBytes v) 0 4 } }

/-- `cr6 & (0x80000000 >> i)`. -/
def subclassEnabled (cr6 : BitVec 64) (i : Fin 8) : Bool :=
  cr6 &&& (0x80000000#32 >>> i.val).setWidth 64 != 0

/-- Where the loop of `__io_int` stops: the first enabled subclass whose queue
is not empty. -/
def ioIntSubclass (s : RunCpu) : Option (Fin 8) :=
  (List.finRange 8).find? fun i => subclassEnabled s.gcr6 i && !(s.guest.intIo i).isEmpty

/-- The old and new PSW addresses and the length of a PSW. -/
def ioPswArea (zarch : Bool) : ℕ × ℕ × ℕ := if zarch then (0x170, 0x1f0, 16) else (56, 120, 8)

/-- The stores of `__io_int` into the guest's first page, at `phy`. -/
def presentIoInt (phy : ℕ) (ioint : VioInt) (s : RunCpu) : RunCpu :=
  let (old, new, len) := ioPswArea s.zarch
  let s := _doPswSwap phy old new len s
  let s := storeWord (phy + 184) ioint.ssid s
  let s := storeWord (phy + 188) ioint.param s
  storeWord (phy + 192) ioint.intid s

/-- `list_del` of the first entry of a queue. -/
def delIoInt (i : Fin 8) (s : RunCpu) : RunCpu :=
  let intIo := Function.update s.guest.intIo i (s.guest.intIo i).tail
  { s with guest := { s.guest with intIo } }

/-- `__io_int`. -/
def _ioInt (s : RunCpu) : ℕ × RunCpu :=
  if !pswIo s.gpsw then (0, s)
  else
    match ioIntSubclass s with
    | none => (0, s)
    | some i =>
      match (s.guest.intIo i).head? with
      | none => (0, s)
      | some ioint =>
        let s := delIoInt i s
        match virt2phyCurrent s.guest.frames 0 with
        | none => (0, { s with guest := { s.guest with stopped := true } })
        | some phy => (1, presentIoInt phy ioint s)

/-- **What the guest did until SIE ended**: its PSW, control register 6, and its storage. -/
structure SieExit where
  gpsw : ℕ → UInt8
  gcr6 : BitVec 64
  mem : ℕ → UInt8

/-- The guest under SIE: what it leaves in its storage, PSW and control register 6 is the exit's
data. -/
def sie (x : SieExit) (s : RunCpu) : RunCpu :=
  { s with guest := { s.guest with mem := x.mem, cc := pswCc x.gpsw }
           gpsw := x.gpsw
           gcr6 := x.gcr6 }

/-- `run_guest`; where it calls `schedule` it has nothing more to do. -/
def runGuest (x : SieExit) (s : RunCpu) : RunCpu :=
  let (ret, s) := _ioInt s
  if ret ≠ 0 then sie x s
  else if pswW s.gpsw then
    if !pswIo s.gpsw && !pswEx s.gpsw && !pswM s.gpsw then
      { s with guest := { s.guest with stopped := true } }
    else s
  else sie x s

/-! ### Histories -/

/-- A presentation: the state before `__io_int`, the interruption and the state
after. -/
structure Presentation where
  before : RunCpu
  isc : Fin 8
  ioint : VioInt
  after : RunCpu

/-- The interruption that `__io_int` presents in this state. -/
def presentation (s : RunCpu) : List Presentation :=
  match ioIntSubclass s with
  | none => []
  | some i =>
    match (s.guest.intIo i).head? with
    | none => []
    | some ioint => if (_ioInt s).1 = 1 then [⟨s, i, ioint, (_ioInt s).2⟩] else []

/-- The CPU with everything that was queued, by subclass and oldest first, and
everything that was presented. -/
structure IoHistory where
  cpu : RunCpu
  queued : Fin 8 → List VioInt
  presented : List Presentation

/-- **What can happen to a guest's I/O interruptions**: one is queued, the CPU runs a round, or
its state is changed elsewhere. -/
inductive GuestIoEvent
  | queue (alloc : Bool) (ssid param : BitVec 32) (a : BitVec 1) (isc : BitVec 3)
  | run (x : SieExit)
  | env (cpu : RunCpu)

/-- A `queue_io_interrupt` call, a `run_guest` call, or a change of anything but
the queues. -/
def guestIoStep (h : IoHistory) : GuestIoEvent → Option IoHistory
  | .queue alloc ssid param a isc =>
    (queueIoInterrupt alloc ssid param a isc h.cpu.guest).map fun guest =>
      let ioint : VioInt := ⟨ssid, param, (a.setWidth 32 <<< 31) ||| (isc.setWidth 32 <<< 27)⟩
      { h with cpu := { h.cpu with guest }
               queued := Function.update h.queued isc.toFin (h.queued isc.toFin ++ [ioint]) }
  | .run x =>
    some { h with cpu := runGuest x h.cpu, presented := h.presented ++ presentation h.cpu }
  | .env cpu =>
    some { h with cpu := { cpu with guest := { cpu.guest with intIo := h.cpu.guest.intIo } } }

/-- A guest with nothing queued. -/
def IoHistory.init (cpu : RunCpu) : IoHistory where
  cpu := { cpu with guest := { cpu.guest with intIo := fun _ => [] } }
  queued _ := []
  presented := []

/-- **What presenting an interruption should be:** the guest lets its subclass
through, it is the oldest of the first subclass that has one, its words and the
old PSW are stored in the guest's first page and the new PSW is loaded. -/
structure Presents (p : Presentation) : Prop where
  io : pswIo p.before.gpsw = true
  enabled : subclassEnabled p.before.gcr6 p.isc = true
  first : ∀ i < p.isc, subclassEnabled p.before.gcr6 i = true → p.before.guest.intIo i = []
  oldest : (p.before.guest.intIo p.isc).head? = some p.ioint
  stored : ∃ phy, virt2phyCurrent p.before.guest.frames 0 = some phy ∧
    (∀ k < 4, p.after.guest.mem (phy + 184 + k) = toBytes p.ioint.ssid k) ∧
    (∀ k < 4, p.after.guest.mem (phy + 188 + k) = toBytes p.ioint.param k) ∧
    (∀ k < 4, p.after.guest.mem (phy + 192 + k) = toBytes p.ioint.intid k) ∧
    ∀ k < (ioPswArea p.before.zarch).2.2,
      p.after.guest.mem (phy + (ioPswArea p.before.zarch).1 + k) = p.before.gpsw k ∧
      p.after.gpsw k = p.before.guest.mem (phy + (ioPswArea p.before.zarch).2.1 + k)

/-- **Exactly once, in order of priority.**  In each subclass the interruptions
queued so far are those presented so far followed by those still in the queue,
and each presentation was right. -/
structure Delivered (h : IoHistory) : Prop where
  once : ∀ i, h.queued i
    = ((h.presented.filter fun p => p.isc = i).map Presentation.ioint) ++ h.cpu.guest.intIo i
  presents : ∀ p ∈ h.presented, Presents p

/-- Whenever `run_guest` has an interruption to present, guest page 0 is there. -/
def pageZeroThere (h : IoHistory) : GuestIoEvent → Prop
  | .run _ => pswIo h.cpu.gpsw = true → (ioIntSubclass h.cpu).isSome →
      virt2phyCurrent h.cpu.guest.frames 0 ≠ none
  | _ => True

/-! ### One call -/

variable {s : RunCpu} {i : Fin 8} {ioint : VioInt} {phy : ℕ}

/-- A byte loaded by `memcpy` is the byte at its place in the source. -/
theorem memcpy_load {bytes srcBytes : ℕ → UInt8} {src k len : ℕ} (h : k < len) :
    memcpy bytes 0 srcBytes src len k = srcBytes (src + k) := by
  simp [memcpy, h]

/-- What the loop of `__io_int` found. -/
theorem ioIntSubclass_eq_some (h : ioIntSubclass s = some i) :
    subclassEnabled s.gcr6 i = true ∧ s.guest.intIo i ≠ [] ∧
      ∀ j < i, subclassEnabled s.gcr6 j = true → s.guest.intIo j = [] := by
  obtain ⟨hi, k, hk, rfl, hbefore⟩ := List.find?_eq_some_iff_getElem.1 h
  rw [List.getElem_finRange] at hi
  simp only [Bool.and_eq_true, Bool.not_eq_true', List.isEmpty_eq_false_iff] at hi
  refine ⟨by simpa using hi.1, by simpa using hi.2, fun j hj hen => ?_⟩
  have hjk : j.val < k := by simpa [Fin.lt_def] using hj
  have hnot := hbefore j.val hjk
  simpa [hen] using hnot

/-- Neither PSW area overlaps the three words. -/
theorem ioPswArea_apart (zarch : Bool) : (ioPswArea zarch).2.2 ≤ 16 ∧
    ((ioPswArea zarch).1 + (ioPswArea zarch).2.2 ≤ 184 ∨ 196 ≤ (ioPswArea zarch).1) ∧
    ((ioPswArea zarch).1 + (ioPswArea zarch).2.2 ≤ (ioPswArea zarch).2.1) := by
  cases zarch
  · exact ⟨by decide, Or.inl (by decide), by decide⟩
  · exact ⟨by decide, Or.inr (by decide), by decide⟩

/-- **What a presentation stores and loads.** -/
theorem presentIoInt_stored (phy : ℕ) (ioint : VioInt) (s : RunCpu) :
    (∀ k < 4, (presentIoInt phy ioint s).guest.mem (phy + 184 + k) = toBytes ioint.ssid k) ∧
    (∀ k < 4, (presentIoInt phy ioint s).guest.mem (phy + 188 + k) = toBytes ioint.param k) ∧
    (∀ k < 4, (presentIoInt phy ioint s).guest.mem (phy + 192 + k) = toBytes ioint.intid k) ∧
    ∀ k < (ioPswArea s.zarch).2.2,
      (presentIoInt phy ioint s).guest.mem (phy + (ioPswArea s.zarch).1 + k) = s.gpsw k ∧
      (presentIoInt phy ioint s).gpsw k
        = s.guest.mem (phy + (ioPswArea s.zarch).2.1 + k) := by
  have hapart := ioPswArea_apart s.zarch
  simp only [presentIoInt, storeWord, _doPswSwap]
  generalize ioPswArea s.zarch = area at hapart ⊢
  obtain ⟨old, new, len⟩ := area
  obtain ⟨-, hwords, hareas⟩ := hapart
  dsimp only at hwords hareas ⊢
  refine ⟨fun k hk => ?_, fun k hk => ?_, fun k hk => ?_, fun k hk => ⟨?_, ?_⟩⟩
  · rw [memcpy_out (by omega), memcpy_out (by omega), memcpy_in hk]
  · rw [memcpy_out (by omega), memcpy_in hk]
  · rw [memcpy_in hk]
  · rw [memcpy_out (by omega), memcpy_out (by omega), memcpy_out (by omega), memcpy_in hk]
  · rw [memcpy_load hk]
    exact memcpy_out (Or.inr (by omega))

/-- `__io_int` in its four cases. -/
theorem ioInt_cases (s : RunCpu) :
    ((pswIo s.gpsw = false ∨ ioIntSubclass s = none) ∧ _ioInt s = (0, s)) ∨
    ∃ i ioint, pswIo s.gpsw = true ∧ ioIntSubclass s = some i ∧
      (s.guest.intIo i).head? = some ioint ∧
      ((virt2phyCurrent s.guest.frames 0 = none ∧ _ioInt s
          = (0, { delIoInt i s with guest := { (delIoInt i s).guest with stopped := true } })) ∨
        ∃ phy, virt2phyCurrent s.guest.frames 0 = some phy ∧
          _ioInt s = (1, presentIoInt phy ioint (delIoInt i s))) := by
  unfold _ioInt
  cases hio : pswIo s.gpsw with
  | false => exact Or.inl ⟨Or.inl rfl, rfl⟩
  | true =>
    cases hsub : ioIntSubclass s with
    | none => exact Or.inl ⟨Or.inr rfl, rfl⟩
    | some i =>
      obtain ⟨-, hne, -⟩ := ioIntSubclass_eq_some hsub
      obtain ⟨ioint, queue, hqueue⟩ := List.exists_cons_of_ne_nil hne
      refine Or.inr ⟨i, ioint, rfl, rfl, by rw [hqueue]; rfl, ?_⟩
      simp only [hqueue, List.head?_cons, Bool.not_true, Bool.false_eq_true, ↓reduceIte]
      cases hphy : virt2phyCurrent s.guest.frames 0 with
      | none => exact Or.inl ⟨rfl, by simp [delIoInt, hphy]⟩
      | some phy => exact Or.inr ⟨phy, rfl, by simp [delIoInt, hphy]⟩

/-! ### Steps and runs -/

/-- `run_guest` leaves the queues as `__io_int` does. -/
theorem runGuest_intIo (x : SieExit) (s : RunCpu) :
    (runGuest x s).guest.intIo = (_ioInt s).2.guest.intIo := by
  unfold runGuest
  dsimp only
  split_ifs <;> rfl

/-- Presenting an interruption leaves the queues as they were; the caller has taken it off. -/
theorem presentIoInt_intIo (phy : ℕ) (ioint : VioInt) (s : RunCpu) :
    (presentIoInt phy ioint s).guest.intIo = s.guest.intIo := rfl

/-- **A `run_guest` call** presents nothing and leaves the queues alone,
presents an interruption that it takes off its queue, or loses one. -/
theorem runGuest_cases (x : SieExit) (s : RunCpu) :
    (presentation s = [] ∧ (runGuest x s).guest.intIo = s.guest.intIo ∧
      (pswIo s.gpsw = false ∨ ioIntSubclass s = none)) ∨
    ∃ i ioint, pswIo s.gpsw = true ∧ ioIntSubclass s = some i ∧
      s.guest.intIo i = ioint :: (s.guest.intIo i).tail ∧
      (runGuest x s).guest.intIo
        = Function.update s.guest.intIo i (s.guest.intIo i).tail ∧
      ((virt2phyCurrent s.guest.frames 0 = none ∧ presentation s = []) ∨
        virt2phyCurrent s.guest.frames 0 ≠ none ∧
          ∃ u, presentation s = [⟨s, i, ioint, u⟩] ∧ Presents ⟨s, i, ioint, u⟩) := by
  rw [runGuest_intIo]
  rcases ioInt_cases s with ⟨hno, heq⟩ | ⟨i, ioint, hio, hsub, hhead, hcase⟩
  · refine Or.inl ⟨?_, by rw [heq], hno⟩
    unfold presentation
    rw [heq]
    split
    · rfl
    · split
      · rfl
      · rfl
  · obtain ⟨hen, -, hfirst⟩ := ioIntSubclass_eq_some hsub
    refine Or.inr ⟨i, ioint, hio, hsub, List.eq_cons_of_mem_head? hhead, ?_⟩
    rcases hcase with ⟨hphy, heq⟩ | ⟨phy, hphy, heq⟩
    · refine ⟨by rw [heq]; rfl, Or.inl ⟨hphy, ?_⟩⟩
      simp [presentation, hsub, hhead, heq]
    · refine ⟨by rw [heq, presentIoInt_intIo]; rfl,
        Or.inr ⟨by simp [hphy], presentIoInt phy ioint (delIoInt i s), ?_, ?_⟩⟩
      · simp only [presentation, hsub, hhead, heq, ↓reduceIte]
      · exact ⟨hio, hen, hfirst, hhead, phy, hphy, presentIoInt_stored phy ioint (delIoInt i s)⟩

/-- **A step keeps `Delivered` exactly when guest page 0 is there** for the
interruption that is due. -/
theorem guestIoStep_delivered {h h' : IoHistory} {e : GuestIoEvent} (hdel : Delivered h)
    (hstep : guestIoStep h e = some h') : Delivered h' ↔ pageZeroThere h e := by
  cases e with
  | queue alloc ssid param a isc =>
    refine iff_of_true ?_ trivial
    obtain ⟨guest, hguest, rfl⟩ := Option.map_eq_some_iff.1 hstep
    unfold queueIoInterrupt at hguest
    split_ifs at hguest
    obtain rfl := Option.some.inj hguest
    refine ⟨fun i => ?_, hdel.presents⟩
    rcases eq_or_ne i isc.toFin with rfl | hne
    · simp only [Function.update_self, hdel.once, List.append_assoc]
    · simp only [Function.update_of_ne hne, hdel.once]
  | run x =>
    obtain rfl := Option.some.inj hstep
    rcases runGuest_cases x h.cpu with
      ⟨hnone, hqueues, hno⟩ | ⟨i, ioint, hio, hsub, hqueue, hqueues, hcase⟩
    · refine iff_of_true ⟨fun i => ?_, ?_⟩ fun hio hsub => ?_
      · rw [hqueues, hnone, List.append_nil]
        exact hdel.once i
      · rw [hnone, List.append_nil]
        exact hdel.presents
      · rcases hno with hno | hno
        · exact absurd hio (by rw [hno]; exact Bool.false_ne_true)
        · exact absurd hsub (by rw [hno]; exact Bool.false_ne_true)
    · have honce := hdel.once i
      rcases hcase with ⟨hphy, hnone⟩ | ⟨hphy, u, hpres, hright⟩
      · -- The interruption is off its queue and not among the presented ones.
        refine iff_of_false (fun hdel' => ?_) fun hthere => hthere hio (by rw [hsub]; rfl) hphy
        have honce' := hdel'.once i
        rw [hqueues, hnone, List.append_nil, Function.update_self] at honce'
        have hlen := congrArg List.length (honce.symm.trans honce')
        rw [hqueue] at hlen
        simp at hlen
      · refine iff_of_true ⟨fun j => ?_, fun p hp => ?_⟩ fun _ _ => hphy
        · rw [hqueues, hpres, List.filter_append, List.map_append, hdel.once j]
          rcases eq_or_ne j i with rfl | hne
          · rw [hqueue]
            simp
          · simp [Function.update_of_ne hne, hne.symm]
        · rw [hpres] at hp
          rcases List.mem_append.1 hp with hp | hp
          · exact hdel.presents p hp
          · obtain rfl := List.mem_singleton.1 hp
            exact hright
  | env cpu =>
    obtain rfl := Option.some.inj hstep
    exact iff_of_true ⟨hdel.once, hdel.presents⟩ trivial

/-- **Exactly when interruptions are delivered exactly once and in order.**  In
runs of `queue_io_interrupt` and `run_guest` with any masks, control register 6,
storage and translation between the calls, every interruption is presented once
in order or still queued exactly when guest page 0 is there each time one is
due. -/
theorem ioInt_delivered_iff {cpu : RunCpu} {ls : List GuestIoEvent} {h : IoHistory}
    (hrun : Run (fun h e h' => guestIoStep h e = some h') (.init cpu) ls h) :
    (∀ ls' h', ls' <+: ls →
        Run (fun h e h' => guestIoStep h e = some h') (.init cpu) ls' h' → Delivered h') ↔
      Run (guarded pageZeroThere fun h e h' => guestIoStep h e = some h') (.init cpu) ls h :=
  Run.always_iff (P := fun _ h => Delivered h)
    (fun _ _ _ _ h₁ h₂ => Option.some.inj (h₁.symm.trans h₂))
    ⟨fun _ => rfl, fun _ hp => absurd hp List.not_mem_nil⟩
    (fun _ _ _ _ _ hdel hstep => guestIoStep_delivered hdel hstep) hrun

/-- A guest enabled for all I/O interruptions, with the translation `frames`. -/
def enabledCpu (frames : ℕ → Option ℕ) : RunCpu where
  guest := { frames, storageSize := 0, mem := fun _ => 0, vdevs := [], intIo := fun _ => [],
             cc := 0, stopped := false }
  gpsw := fun k => if k = 0 then 0x02 else 0
  gcr6 := 0xff000000
  zarch := true

/-- A stay in the guest that changes nothing. -/
def idleExit : SieExit := ⟨fun _ => 0, 0, fun _ => 0⟩

/-- Two interruptions, of the subclasses 3 and 1, are queued by two calls, and a round of
the loop follows: in every state each one is presented once, or queued. -/
theorem ioInt_delivered_twoCalls :
    ∃ h, Run (fun h e h' => guestIoStep h e = some h') (.init (enabledCpu fun _ => some 5))
        [.queue true 0x10001 7 0 3, .queue true 0x10002 8 0 1, .run idleExit] h ∧
      ∀ ls' h', ls' <+: [.queue true 0x10001 7 0 3, .queue true 0x10002 8 0 1, .run idleExit] →
        Run (fun h e h' => guestIoStep h e = some h') (.init (enabledCpu fun _ => some 5)) ls' h' →
          Delivered h' := by
  have hguarded : ∃ h, Run (guarded pageZeroThere fun h e h' => guestIoStep h e = some h')
      (.init (enabledCpu fun _ => some 5))
      [.queue true 0x10001 7 0 3, .queue true 0x10002 8 0 1, .run idleExit] h :=
    ⟨_, ((Run.nil.snoc ⟨trivial, rfl⟩).snoc ⟨trivial, rfl⟩).snoc
      ⟨(fun _ _ hphy => nomatch hphy), rfl⟩⟩
  obtain ⟨h, hh⟩ := hguarded
  exact ⟨h, hh.of_guarded, (ioInt_delivered_iff hh.of_guarded).2 hh⟩

/-- With guest page 0 not there the interruption is neither presented nor queued any more:
it is taken off its queue before the page is looked for. -/
theorem ioInt_lost :
    ∃ h, Run (fun h e h' => guestIoStep h e = some h') (.init (enabledCpu fun _ => none))
        [.queue true 0x10001 7 0 3, .run idleExit] h ∧
      h.queued 3 = [⟨0x10001, 7, 0x18000000⟩] ∧ h.presented = [] ∧ h.cpu.guest.intIo 3 = [] ∧
      ¬ Delivered h := by
  refine ⟨_, (Run.nil.snoc rfl).snoc rfl, rfl, rfl, rfl, fun hdel => ?_⟩
  exact nomatch hdel.once 3

end Hvf
