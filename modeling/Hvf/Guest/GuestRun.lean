/-
# Runs of a guest

What can happen to a guest, one event after the other: the operator's commands, the
resets, an IPL, a round of the loop of `shell_start`, and changes of everything that
none of these is about.  An IPL is its steps, since the CP does other work while it
reads the named saved system: it is refused, or it resets the system and goes to
`GUEST_LOAD`, and later ends well or finds the file corrupt.
-/

import Hvf.Guest.Reset

namespace Hvf

/-! ### Commands -/

/-- `ptr[gpr] = val`, a store into `regs.gpr`. -/
def VirtSys.setGpr (gpr : Fin 16) (val : BitVec 64) (s : VirtSys) : VirtSys :=
  { s with regs := { s.regs with gpr := Function.update s.regs.gpr gpr val } }

/-- `cmd_store_gpr`, from what `__extract_dec` and `__extract_hex` return for the number
of the register and the value. -/
def cmdStoreGpr (gpr val : Except Int (BitVec 64)) (s : VirtSys) : Int × VirtSys :=
  match gpr with
  | .error ret => (ret, s)
  | .ok gpr =>
    if gpr > 15 then (-einval, s)
    else
      match val with
      | .error ret => (ret, s)
      | .ok val => (0, s.setGpr (Fin.ofNat 16 gpr.toNat) val)

/-- The values that `cmd_display_gpr` prints. -/
def cmdDisplayGpr (s : VirtSys) : List (BitVec 64) := (List.finRange 16).map s.regs.gpr

/-! ### Resets and IPL -/

/-- **The ways to reset a guest**: at power-on, by `SYSTEM RESET` or `SYSTEM CLEAR`, and
before an IPL. -/
inductive SystemReset
  | powerOn
  | normal
  | clear
  | loadNormal
  | loadClear
  deriving DecidableEq

/-- The five resets of `reset.c`. -/
def systemReset : SystemReset → VirtSys → VirtSys
  | .powerOn => guestPowerOnReset
  | .normal => guestSystemResetNormal
  | .clear => guestSystemResetClear
  | .loadNormal => guestLoadNormal
  | .loadClear => guestLoadClear

/-- `guest_ipl_nss` where it gives up before it resets the system, or finds the file
corrupt. -/
def iplFail (s : VirtSys) : VirtSys := { s with state := .checkstop }

/-- `guest_ipl_nss` up to where it reads the program headers. -/
def iplLoad (s : VirtSys) : VirtSys := { guestLoadClear s with state := .load }

/-- `guest_ipl_nss` after that: the new PSW and, for a 64-bit system, the architecture. -/
def iplLoaded (gpsw : ℕ → UInt8) (cpuflags : BitVec 32) (s : VirtSys) : VirtSys :=
  { s with sie := { s.sie with gpsw, cpuflags }, state := .stopped }

/-! ### Events -/

/-- **What can happen to a guest's CPU**: the commands, the IPL's three outcomes, a reset, a
round of the run loop, the register commands, or a change made elsewhere. -/
inductive GuestEvent
  | guestBegin
  | guestStop
  | iplFail
  | iplLoad
  | iplLoaded (gpsw : ℕ → UInt8) (cpuflags : BitVec 32)
  | reset (r : SystemReset)
  | round (x : SieEnd) (y : SschEnv)
  | storeGpr (gpr val : Except Int (BitVec 64))
  | displayGpr
  | env (s : VirtSys)

/-- Everything may change but the state of the CPU and its general registers. -/
def VirtSys.changed (s t : VirtSys) : VirtSys :=
  { t with
    state := s.state
    sie := { t.sie with gg14 := s.sie.gg14, gg15 := s.sie.gg15 }
    regs := { t.regs with gpr := s.regs.gpr } }

/-- An event; a round of the loop may have no result. -/
def guestStep (s : VirtSys) : GuestEvent → Option VirtSys
  | .guestBegin => some (guestBegin s).2
  | .guestStop => some (guestStop s).2
  | .iplFail => some (iplFail s)
  | .iplLoad => some (iplLoad s)
  | .iplLoaded gpsw cpuflags => some (iplLoaded gpsw cpuflags s)
  | .reset r => some (systemReset r s)
  | .round x y => s.shellRound x y
  | .storeGpr gpr val => some (cmdStoreGpr gpr val s).2
  | .displayGpr => some s
  | .env t => some (s.changed t)

/-- A reset, or a step of an IPL. -/
def GuestEvent.Resets : GuestEvent → Prop
  | .reset _ | .iplFail | .iplLoad | .iplLoaded _ _ => True
  | _ => False

/-! ### Entering SIE -/

namespace VirtSys

/-- `__io_int` finds an interruption that the guest is enabled for. -/
def IntDue (s : VirtSys) : Prop :=
  pswIo s.sie.gpsw = true ∧ (ioIntSubclass s.runCpu).isSome

/-- Guest page 0 is mapped. -/
def PageZero (s : VirtSys) : Prop := virt2phyCurrent s.as.frames 0 ≠ none

/-- `run_guest` gets to SIE: an interruption is presented, or the guest does not wait. -/
def EntersSie (s : VirtSys) : Prop := (s.IntDue ∧ s.PageZero) ∨ pswW s.sie.gpsw = false

/-- **The two agree in everything in which they hold general registers**: `regs.gpr`, and
`gg14` and `gg15` of the SIE block. -/
structure SameGprs (s t : VirtSys) : Prop where
  gpr : t.regs.gpr = s.regs.gpr
  gg14 : t.sie.gg14 = s.sie.gg14
  gg15 : t.sie.gg15 = s.sie.gg15

/-- A state has its own registers. -/
theorem SameGprs.refl (s : VirtSys) : SameGprs s s := ⟨rfl, rfl, rfl⟩

/-- Having the same registers composes. -/
theorem SameGprs.trans {s t u : VirtSys} (h : SameGprs s t) (h' : SameGprs t u) : SameGprs s u :=
  ⟨h'.gpr.trans h.gpr, h'.gg14.trans h.gg14, h'.gg15.trans h.gg15⟩

/-- **What `__io_int` does.**  It has nothing to present and changes nothing but for
the condition code, presents an interruption, or stops the CPU and returns 0. -/
theorem ioInt_spec (s : VirtSys) : SameGprs s s.ioInt.2 ∧
    ((¬ s.IntDue ∧ s.ioInt.1 = 0 ∧ s.ioInt.2.state = s.state ∧ s.ioInt.2.sie.gpsw = s.sie.gpsw) ∨
      (s.IntDue ∧ s.PageZero ∧ s.ioInt.1 = 1 ∧ s.ioInt.2.state = s.state) ∨
      (s.IntDue ∧ ¬ s.PageZero ∧ s.ioInt.1 = 0 ∧ s.ioInt.2.state = .stopped ∧
        s.ioInt.2.sie.gpsw = s.sie.gpsw)) := by
  refine ⟨⟨rfl, rfl, rfl⟩, ?_⟩
  unfold ioInt
  rcases ioInt_cases s.runCpu with
    ⟨hno, heq⟩ | ⟨i, ioint, hio, hsub, -, ⟨hphy, heq⟩ | ⟨phy, hphy, heq⟩⟩
  · refine Or.inl ⟨fun hdue => ?_, ?_⟩
    · rcases hno with hno | hno
      · exact Bool.false_ne_true (hno.symm.trans hdue.1)
      · simpa [hno] using hdue.2
    · rw [heq]
      exact ⟨rfl, rfl, rfl⟩
  · refine Or.inr (Or.inr ⟨⟨hio, by rw [hsub]; rfl⟩, not_not.2 hphy, ?_⟩)
    rw [heq]
    exact ⟨rfl, rfl, rfl⟩
  · refine Or.inr (Or.inl ⟨⟨hio, by rw [hsub]; rfl⟩, ?_, ?_⟩)
    · show virt2phyCurrent s.runCpu.guest.frames 0 ≠ none
      simp [hphy]
    · rw [heq]
      exact ⟨rfl, rfl⟩

/-- The rest of what `run_guest` does before SIE when `__io_int` returned 0. -/
theorem enterSie_noInt (s : VirtSys) (hret : s.ioInt.1 = 0)
    (hpsw : s.ioInt.2.sie.gpsw = s.sie.gpsw) :
    (s.enterSie.1 = true ↔ pswW s.sie.gpsw = false) ∧
      (s.enterSie.1 = true → s.enterSie.2.state = s.ioInt.2.state) ∧
      (s.enterSie.2.state = s.ioInt.2.state ∨ s.enterSie.2.state = .stopped) := by
  unfold enterSie
  dsimp only
  rw [if_neg (not_not.2 hret), hpsw]
  cases hw : pswW s.sie.gpsw with
  | true =>
    rw [if_pos rfl]
    split_ifs
    · exact ⟨by simp, by simp, Or.inr rfl⟩
    · exact ⟨by simp, by simp, Or.inl rfl⟩
  | false =>
    rw [if_neg Bool.false_ne_true]
    exact ⟨iff_of_true rfl rfl, fun _ => rfl, Or.inl rfl⟩

/-- Entering SIE changes no register. -/
theorem enterSie_gprs (s : VirtSys) : SameGprs s s.enterSie.2 := by
  have hgprs := s.ioInt_spec.1
  unfold enterSie
  dsimp only
  split_ifs
  · exact hgprs
  · exact hgprs.trans ⟨rfl, rfl, rfl⟩
  · exact hgprs
  · exact hgprs

/-- **What `run_guest` does before SIE.**  The CPU has been stopped in front of SIE
exactly when an interruption is due and guest page 0 is not there. -/
theorem enterSie_spec (s : VirtSys) : (s.enterSie.1 = true ↔ s.EntersSie) ∧
    (s.enterSie.2.state = s.state ∨ s.enterSie.2.state = .stopped) ∧
    (s.EntersSie → (s.IntDue → s.PageZero) → s.enterSie.2.state = s.state) ∧
    (s.IntDue → ¬ s.PageZero → s.enterSie.2.state = .stopped) := by
  rcases s.ioInt_spec.2 with ⟨hdue, hret, hstate, hpsw⟩ | ⟨hdue, hpage, hret, hstate⟩ |
    ⟨hdue, hpage, hret, hstate, hpsw⟩
  · obtain ⟨hin, hgo, hleft⟩ := s.enterSie_noInt hret hpsw
    rw [hstate] at hgo hleft
    have henters : s.EntersSie ↔ pswW s.sie.gpsw = false := or_iff_right fun h => hdue h.1
    refine ⟨hin.trans henters.symm, hleft, fun h _ => hgo (hin.2 (henters.1 h)), fun h => ?_⟩
    exact absurd h hdue
  · have hne : s.ioInt.1 ≠ 0 := by omega
    have hcall : s.enterSie = (true, s.ioInt.2) := if_pos hne
    rw [hcall]
    exact ⟨iff_of_true rfl (Or.inl ⟨hdue, hpage⟩), Or.inl hstate, fun _ _ => hstate,
      fun _ h => absurd hpage h⟩
  · obtain ⟨hin, hgo, hleft⟩ := s.enterSie_noInt hret hpsw
    rw [hstate] at hgo hleft
    have henters : s.EntersSie ↔ pswW s.sie.gpsw = false := or_iff_right fun h => hpage h.2
    exact ⟨hin.trans henters.symm, Or.inr (hleft.elim id id), fun _ h => absurd (h hdue) hpage,
      fun _ _ => hleft.elim id id⟩

end VirtSys

/-! ### Intercepts -/

open VirtSys

/-- What a handler of an intercept leaves: the general registers, and the state of the
CPU unless it stops it. -/
structure Handled (s t : VirtSys) : Prop where
  gprs : SameGprs s t
  state : t.state = s.state ∨ t.state = .stopped

/-- A CPU stopped behind the handler is still what a handler leaves. -/
theorem Handled.stop {s t : VirtSys} (h : Handled s t) : Handled s t.stop :=
  ⟨h.gprs.trans ⟨rfl, rfl, rfl⟩, Or.inr rfl⟩

/-- A handler that changes nothing leaves what a handler must. -/
theorem handled_refl (s : VirtSys) : Handled s s := ⟨SameGprs.refl s, Or.inl rfl⟩

/-- An I/O instruction touches neither the general registers nor the CPU state. -/
theorem ioInstruction_handled {h : BitVec 64 → BitVec 64 → Guest → Option (Int × Guest)}
    {s t : VirtSys} {ret : Int} (heq : ioInstruction h s = some (ret, t)) : Handled s t := by
  unfold ioInstruction at heq
  obtain ⟨addr, -, heq⟩ := Option.bind_eq_some_iff.1 heq
  obtain ⟨⟨ret', g⟩, -, heq⟩ := Option.bind_eq_some_iff.1 heq
  obtain ⟨rfl, rfl⟩ := Prod.mk.inj (Option.some.inj heq)
  refine ⟨⟨rfl, rfl, rfl⟩, ?_⟩
  cases hstopped : g.stopped with
  | true => exact Or.inr (by simp [putGuest, hstopped])
  | false => exact Or.inl (by simp [putGuest, hstopped])

/-- **No intercepted instruction touches the general registers**, and the CPU stays in its state
or is stopped. -/
theorem handleInstruction_handled {x : SschEnv} {s t : VirtSys} {ret : Int}
    (heq : handleInstruction x s = some (ret, t)) : Handled s t := by
  unfold handleInstruction at heq
  split_ifs at heq
  · unfold handleInstructionPriv at heq
    split at heq
    · next h hfunc =>
      unfold instructionPrivFuncs at hfunc
      split at hfunc
      · rw [← Option.some.inj hfunc] at heq
        exact ioInstruction_handled heq
      · rw [← Option.some.inj hfunc] at heq
        exact ioInstruction_handled heq
      · rw [← Option.some.inj hfunc] at heq
        exact ioInstruction_handled heq
      · rw [← Option.some.inj hfunc] at heq
        exact ioInstruction_handled heq
      · exact nomatch hfunc
    · obtain ⟨-, rfl⟩ := Prod.mk.inj (Option.some.inj heq)
      exact handled_refl s
  · obtain ⟨-, rfl⟩ := Prod.mk.inj (Option.some.inj heq)
    exact handled_refl s

/-- Every handler of `intercept_funcs`. -/
theorem interceptFuncs_handled {x : SschEnv} {code : ℕ} {h : InterceptHandler} {s t : VirtSys}
    {ret : Int} (hfunc : interceptFuncs x code = some h) (heq : h s = some (ret, t)) :
    Handled s t := by
  have hstop : ∀ {ret' t'}, interceptStop s = some (ret', t') → Handled s t' := fun heq => by
    obtain ⟨-, rfl⟩ := Prod.mk.inj (Option.some.inj heq)
    exact (handled_refl s).stop
  have hkeep : ∀ {ret' t'}, some ((0 : Int), s) = some (ret', t') → Handled s t' := fun heq => by
    obtain ⟨-, rfl⟩ := Prod.mk.inj (Option.some.inj heq)
    exact handled_refl s
  unfold interceptFuncs at hfunc
  split at hfunc
  all_goals cases hfunc
  · exact hkeep heq
  · exact handleInstruction_handled heq
  · exact hstop heq
  · exact hstop heq
  · exact hstop heq
  · exact hstop heq
  · exact hstop heq
  · exact hkeep heq
  · exact hstop heq
  · obtain ⟨-, rfl⟩ := Prod.mk.inj (Option.some.inj heq)
    exact ⟨⟨rfl, rfl, rfl⟩, Or.inl rfl⟩
  · exact hstop heq
  · exact hstop heq
  · exact hstop heq

/-- **What `handle_interception` does**, for every code and every instruction. -/
theorem handleInterception_handled {x : SschEnv} {s t : VirtSys}
    (heq : handleInterception x s = some t) : Handled s t := by
  unfold handleInterception at heq
  dsimp only at heq
  split_ifs at heq
  split at heq
  · obtain rfl := Option.some.inj heq
    exact (handled_refl s).stop
  · next h hfunc =>
    obtain ⟨⟨ret, u⟩, hu, rfl⟩ := Option.map_eq_some_iff.1 heq
    have hhandled := interceptFuncs_handled hfunc hu
    dsimp only
    split_ifs
    · exact hhandled.stop
    · exact hhandled

/-- **A round of the loop**: nothing happens, `run_guest` ends before SIE, or SIE is
entered and its intercept is handled. -/
theorem shellRound_cases {x : SieEnd} {y : SschEnv} {s t : VirtSys}
    (heq : s.shellRound x y = some t) :
    (s.state ≠ .operating ∧ t = s) ∨
    (s.state = .operating ∧ ¬ s.EntersSie ∧ t = s.enterSie.2) ∨
    (s.state = .operating ∧ s.EntersSie ∧ Handled (s.enterSie.2.leaveSie x) t) := by
  have henters := s.enterSie_spec.1
  unfold shellRound VirtSys.runGuest at heq
  split_ifs at heq with hop
  · refine Or.inr ?_
    dsimp only at heq
    split_ifs at heq with hin
    · exact Or.inr ⟨hop, henters.1 hin, handleInterception_handled heq⟩
    · exact Or.inl ⟨hop, fun h => hin (henters.2 h), (Option.some.inj heq).symm⟩
  · exact Or.inl ⟨hop, (Option.some.inj heq).symm⟩

end Hvf
