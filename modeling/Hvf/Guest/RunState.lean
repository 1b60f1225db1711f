/-
# The state of the CPU

The guest's instructions are executed while its CPU is operating, only `guest_begin`
makes it operate, and only a reset or an IPL takes it out of the check-stop and load
states.  Where `__io_int` cannot translate guest page 0 it stops the CPU, but what it
returns is what it returns when there is nothing to do, and `run_guest` goes on.
-/

import Hvf.Guest.GuestRun

namespace Hvf

open StepRun VirtSys

/-- An event with the states of the CPU before and after it, and the state in which SIE
was entered if it was. -/
structure Transition where
  before : CpuState
  event : GuestEvent
  entered : Option CpuState
  after : CpuState

/-- The state in which the event enters SIE. -/
def enteredState (s : VirtSys) : GuestEvent → Option CpuState
  | .round _ _ =>
    if s.state = .operating ∧ s.enterSie.1 then some s.enterSie.2.state else none
  | _ => none

/-- **A guest with everything that happened to its CPU**: each event with the state before,
the state that SIE was entered in, and the state behind. -/
structure StateHistory where
  sys : VirtSys
  trace : List Transition

/-- One event of the guest, with the CPU state before it and behind it recorded. -/
def stateStep (h : StateHistory) (e : GuestEvent) : Option StateHistory :=
  (guestStep h.sys e).map fun s =>
    ⟨s, h.trace ++ [⟨h.sys.state, e, enteredState h.sys e, s.state⟩]⟩

/-- **A transition as it should be.** The guest is executed in the operating state only,
which begins with BEGIN from a stopped CPU only, and check-stop and load are left by a reset
or an IPL only. -/
structure Disciplined (tr : Transition) : Prop where
  executes : ∀ st, tr.entered = some st → st = .operating
  begins : tr.after = .operating → tr.before = .operating ∨
    tr.event = .guestBegin ∧ tr.before = .stopped
  leaves : tr.before = .checkstop ∨ tr.before = .load → tr.after = tr.before ∨ tr.event.Resets

/-- The discipline was kept so far. -/
def AllDisciplined (h : StateHistory) : Prop := ∀ tr ∈ h.trace, Disciplined tr

/-- When the loop gets to a CPU that operates and does not wait, and an interruption is
due, guest page 0 is there. -/
def pageZeroForInt (h : StateHistory) : GuestEvent → Prop
  | .round _ _ => h.sys.state = .operating → pswW h.sys.sie.gpsw = false → h.sys.IntDue →
      h.sys.PageZero
  | _ => True

/-! ### One event -/

/-- Every reset stops the CPU. -/
theorem systemReset_state (r : SystemReset) (s : VirtSys) : (systemReset r s).state = .stopped := by
  cases r with
  | powerOn => rfl
  | normal => rfl
  | clear => rfl
  | loadNormal => rfl
  | loadClear => rfl

/-- `guest_begin` and `guest_stop` do nothing in the other two states. -/
theorem guestBegin_cases (s : VirtSys) :
    ((s.state = .stopped ∨ s.state = .operating) ∧ (guestBegin s).2.state = .operating) ∨
      ((s.state = .checkstop ∨ s.state = .load) ∧ (guestBegin s).2 = s) := by
  unfold guestBegin
  cases h : s.state with
  | stopped => exact Or.inl ⟨Or.inl rfl, rfl⟩
  | operating => exact Or.inl ⟨Or.inr rfl, rfl⟩
  | load => exact Or.inr ⟨Or.inr rfl, rfl⟩
  | checkstop => exact Or.inr ⟨Or.inl rfl, rfl⟩

/-- **`guest_stop` in the four states.** It stops a CPU that runs or is stopped, and does
nothing to one in check-stop or being loaded. -/
theorem guestStop_cases (s : VirtSys) :
    ((s.state = .stopped ∨ s.state = .operating) ∧ (guestStop s).2.state = .stopped) ∨
      ((s.state = .checkstop ∨ s.state = .load) ∧ (guestStop s).2 = s) := by
  unfold guestStop
  cases h : s.state with
  | stopped => exact Or.inl ⟨Or.inl rfl, rfl⟩
  | operating => exact Or.inl ⟨Or.inr rfl, rfl⟩
  | load => exact Or.inr ⟨Or.inr rfl, rfl⟩
  | checkstop => exact Or.inr ⟨Or.inl rfl, rfl⟩

/-- An event that leaves the state as it is and does not enter SIE. -/
theorem disciplined_same (st : CpuState) (e : GuestEvent) : Disciplined ⟨st, e, none, st⟩ :=
  ⟨fun _ h => (nomatch h), fun h => Or.inl h, fun _ => Or.inl rfl⟩

/-- An event that stops the CPU or check-stops it, by a reset or an IPL. -/
theorem disciplined_reset {st st' : CpuState} {e : GuestEvent} (he : e.Resets)
    (hst : st' ≠ .operating) : Disciplined ⟨st, e, none, st'⟩ :=
  ⟨fun _ h => (nomatch h), fun h => absurd h hst, fun _ => Or.inr he⟩

/-- **A round of the loop** is as it should be exactly when guest page 0 is there for
an interruption that is due. -/
theorem round_disciplined_iff {s t : VirtSys} {x : SieEnd} {y : SschEnv}
    (hstep : s.shellRound x y = some t) :
    Disciplined ⟨s.state, .round x y, enteredState s (.round x y), t.state⟩ ↔
      (s.state = .operating → pswW s.sie.gpsw = false → s.IntDue → s.PageZero) := by
  obtain ⟨hin, hleft, hgo, hstopped⟩ := s.enterSie_spec
  rcases shellRound_cases hstep with ⟨hidle, rfl⟩ | ⟨hop, hnot, rfl⟩ | ⟨hop, henters, hhandled⟩
  · refine iff_of_true ?_ fun hop => absurd hop hidle
    rw [enteredState, if_neg fun h => hidle h.1]
    exact disciplined_same _ _
  · have hentered : enteredState s (.round x y) = none := if_neg fun h => hnot (hin.1 h.2)
    refine iff_of_true ?_ fun _ hw _ => absurd (Or.inr hw) hnot
    rw [hentered]
    exact ⟨fun _ h => (nomatch h), fun _ => Or.inl hop, fun h => by simp [hop] at h⟩
  · have hentered : enteredState s (.round x y) = some s.enterSie.2.state :=
      if_pos ⟨hop, hin.2 henters⟩
    have hleave : (s.enterSie.2.leaveSie x).state = s.enterSie.2.state := rfl
    rw [hentered]
    constructor
    · intro hdisc _ _ hdue
      by_contra hpage
      exact absurd ((hstopped hdue hpage).symm.trans (hdisc.executes _ rfl)) (by decide)
    · intro hcond
      have hpage : s.IntDue → s.PageZero := fun hdue =>
        henters.elim (fun h => h.2) fun hw => hcond hop hw hdue
      have hstate := hgo henters hpage
      refine ⟨fun st h => ?_, fun _ => Or.inl hop, fun h => by simp [hop] at h⟩
      rw [← Option.some.inj h, hstate, hop]

/-- **Every event** is as it should be exactly when guest page 0 is there for an
interruption that is due. -/
theorem guestStep_disciplined_iff {h : StateHistory} {e : GuestEvent} {t : VirtSys}
    (hstep : guestStep h.sys e = some t) :
    Disciplined ⟨h.sys.state, e, enteredState h.sys e, t.state⟩ ↔ pageZeroForInt h e := by
  cases e with
  | guestBegin =>
    obtain rfl := Option.some.inj hstep
    refine iff_of_true ?_ trivial
    rcases guestBegin_cases h.sys with ⟨hst, hafter⟩ | ⟨hst, hafter⟩
    · rw [hafter]
      refine ⟨fun _ h => (nomatch h), fun _ => ?_, fun h => ?_⟩
      · exact hst.symm.imp id fun hst => ⟨rfl, hst⟩
      · rcases hst with hst | hst <;> simp [hst] at h
    · rw [hafter]
      exact disciplined_same _ _
  | guestStop =>
    obtain rfl := Option.some.inj hstep
    refine iff_of_true ?_ trivial
    rcases guestStop_cases h.sys with ⟨hst, hafter⟩ | ⟨hst, hafter⟩
    · rw [hafter]
      refine ⟨fun _ h => (nomatch h), fun h => (nomatch h), fun h => ?_⟩
      rcases hst with hst | hst <;> simp [hst] at h
    · rw [hafter]
      exact disciplined_same _ _
  | iplFail =>
    obtain rfl := Option.some.inj hstep
    exact iff_of_true (disciplined_reset trivial nofun) trivial
  | iplLoad =>
    obtain rfl := Option.some.inj hstep
    exact iff_of_true (disciplined_reset trivial nofun) trivial
  | iplLoaded gpsw cpuflags =>
    obtain rfl := Option.some.inj hstep
    exact iff_of_true (disciplined_reset trivial nofun) trivial
  | reset r =>
    obtain rfl := Option.some.inj hstep
    rw [systemReset_state]
    exact iff_of_true (disciplined_reset trivial nofun) trivial
  | round x y => exact round_disciplined_iff hstep
  | storeGpr gpr val =>
    obtain rfl := Option.some.inj hstep
    have hstate : (cmdStoreGpr gpr val h.sys).2.state = h.sys.state := by
      unfold cmdStoreGpr
      split
      · rfl
      · split_ifs
        · rfl
        · split
          · rfl
          · rfl
    rw [hstate]
    exact iff_of_true (disciplined_same _ _) trivial
  | displayGpr =>
    obtain rfl := Option.some.inj hstep
    exact iff_of_true (disciplined_same _ _) trivial
  | env u =>
    obtain rfl := Option.some.inj hstep
    exact iff_of_true (disciplined_same _ _) trivial

/-! ### Runs -/

/-- **Exactly when the guest's run state is disciplined.**  In a run from any state, SIE
is entered only while the CPU operates, it begins to operate only through
`guest_begin`, and only a reset or an IPL takes it out of the check-stop and load
states, exactly when guest page 0 is mapped each time an interruption is due for a CPU
that operates and does not wait. -/
theorem runState_disciplined_iff {s : VirtSys} {ls : List GuestEvent} {h : StateHistory}
    (hrun : Run (fun h e h' => stateStep h e = some h') ⟨s, []⟩ ls h) :
    (∀ ls' h', ls' <+: ls →
        Run (fun h e h' => stateStep h e = some h') ⟨s, []⟩ ls' h' → AllDisciplined h') ↔
      Run (guarded pageZeroForInt fun h e h' => stateStep h e = some h') ⟨s, []⟩ ls h := by
  refine Run.always_iff (P := fun _ h => AllDisciplined h)
    (fun _ _ _ _ h₁ h₂ => Option.some.inj (h₁.symm.trans h₂))
    (fun _ htr => absurd htr List.not_mem_nil) ?_ hrun
  intro _ h e h' _ hbefore hstep
  obtain ⟨t, ht, rfl⟩ := Option.map_eq_some_iff.1 hstep
  rw [← guestStep_disciplined_iff ht]
  constructor
  · intro hall
    exact hall _ (List.mem_append_right _ (List.mem_singleton_self _))
  · intro hlast tr htr
    rcases List.mem_append.1 htr with htr | htr
    · exact hbefore tr htr
    · rw [List.mem_singleton.1 htr]
      exact hlast

/-! ### A guest with an interruption due -/

/-- No guest page is mapped. -/
def noPage : GuestMem := ⟨fun _ => none, [], fun _ _ h => nomatch h⟩

/-- A guest that is enabled for all I/O interruptions and has one pending. -/
def dueGuest (as : GuestMem) : VirtSys :=
  { newGuest with
    sie := { newGuest.sie with
             gpsw := fun k => if k = 0 then 0x02 else 0, gcr := fun _ => 0xff000000 }
    intIo := Function.update (fun _ => []) 3 [⟨0x10000, 0, 0x18000000⟩]
    as }

/-- A stay in the guest that ends with a wait intercept. -/
def waitEnd : SieEnd := ⟨fun _ => 0, { newGuest.sie with icptcode := 0x1c }, fun _ => 0⟩

/-- An SSCH for which there is no storage; there is none here. -/
def noSsch : SschEnv := ⟨none, fun _ => ⟨false, [], fun _ => 0⟩, false, 0⟩

/-- The guest begins, and the interruption is presented: SIE is entered by a CPU that is
operating. -/
theorem runState_disciplined_presented : ∃ h,
    Run (fun h e h' => stateStep h e = some h') ⟨dueGuest onePage, []⟩
      [.guestBegin, .round waitEnd noSsch] h ∧
    ∀ ls' h', ls' <+: [.guestBegin, .round waitEnd noSsch] →
      Run (fun h e h' => stateStep h e = some h') ⟨dueGuest onePage, []⟩ ls' h' →
        AllDisciplined h' := by
  have hguarded : ∃ h, Run (guarded pageZeroForInt fun h e h' => stateStep h e = some h')
      ⟨dueGuest onePage, []⟩ [.guestBegin, .round waitEnd noSsch] h :=
    ⟨_, (Run.nil.snoc ⟨trivial, rfl⟩).snoc ⟨(fun _ _ _ hpage => nomatch hpage), rfl⟩⟩
  obtain ⟨h, hh⟩ := hguarded
  exact ⟨h, hh.of_guarded, (runState_disciplined_iff hh.of_guarded).2 hh⟩

/-- Without guest page 0 the stopped CPU executes the guest: `__io_int` stops it, and SIE is
entered in the same round. -/
theorem not_runState_disciplined : ∃ h,
    Run (fun h e h' => stateStep h e = some h') ⟨dueGuest noPage, []⟩
      [.guestBegin, .round waitEnd noSsch] h ∧ ¬ AllDisciplined h := by
  refine ⟨_, (Run.nil.snoc rfl).snoc rfl, fun hall => ?_⟩
  have hlast := hall _ (List.mem_append_right _ (List.mem_singleton_self _))
  exact absurd (hlast.executes .stopped rfl) (by decide)

end Hvf
