/-
# One register file

Registers 14 and 15 of a guest are in the SIE control block, and `regs.gpr` has
elements 14 and 15 too, which SIE does not use.  STORE GPR and the clearing resets
store into the array, DISPLAY GPR and `__guest_gpr` read it.

`current` is the register file as the guest and its operator understand it: what the
guest, STORE GPR or a clearing reset put there last.
-/

import Hvf.Guest.GuestRun

namespace Hvf

open StepRun VirtSys

/-- The resets that clear the general registers. -/
def SystemReset.clearsGpr : SystemReset → Bool
  | .powerOn | .clear | .loadClear => true
  | .normal | .loadNormal => false

/-- The intercept is for MSCH, SSCH, STSCH or TSCH. -/
def InterceptedIo (sie : SieCb) : Prop :=
  sie.icptcode >>> 2 = 1 ∧ sie.ipa >>> 8 = 0xb2 ∧ 0x32 ≤ (sie.ipa &&& 0xff).toNat ∧
    (sie.ipa &&& 0xff).toNat ≤ 0x35

/-- Whether the interception is of an I/O instruction is decided from the SIE block. -/
instance (sie : SieCb) : Decidable (InterceptedIo sie) :=
  inferInstanceAs (Decidable (_ ∧ _ ∧ _ ∧ _))

/-- **A value that was read for a register**, by the guest or for a command, and the
register's current value, which it ought to be. -/
structure RegRead where
  reg : Fin 16
  value : BitVec 64
  current : BitVec 64

/-- **A guest with its register file**: the state of the code, the sixteen values that were
put last, by whomever, and everything that was read of them. -/
structure RegHistory where
  sys : VirtSys
  current : Fin 16 → BitVec 64
  reads : List RegRead

/-- The register file after an event. -/
def putRegs (s : VirtSys) (current : Fin 16 → BitVec 64) : GuestEvent → Fin 16 → BitVec 64
  | .storeGpr (.ok gpr) (.ok val) =>
    if gpr > 15 then current else Function.update current (Fin.ofNat 16 gpr.toNat) val
  | .reset r => if r.clearsGpr then fun _ => 0 else current
  | .iplLoad => fun _ => 0
  | .round x _ => if s.state = .operating ∧ s.enterSie.1 then x.gpr else current
  | _ => current

/-- What is read in an event: by DISPLAY GPR, and for an I/O instruction that SIE ended
with. -/
def readRegs (s : VirtSys) (current : Fin 16 → BitVec 64) : GuestEvent → List RegRead
  | .displayGpr => (List.finRange 16).map fun r => ⟨r, (cmdDisplayGpr s).getD r 0, current r⟩
  | .round x _ =>
    if (s.state = .operating ∧ s.enterSie.1) ∧ InterceptedIo x.sie then
      (operandRegs x.sie).map fun r =>
        ⟨r, _guestGpr (s.enterSie.2.leaveSie x) r, archMask x.sie (x.gpr r)⟩
    else []
  | _ => []

/-- One event of the guest, with the registers it puts and reads recorded. -/
def regStep (h : RegHistory) (e : GuestEvent) : Option RegHistory :=
  (guestStep h.sys e).map fun s =>
    ⟨s, putRegs h.sys h.current e, h.reads ++ readRegs h.sys h.current e⟩

/-- **One register file**: the guest would be entered with the current values, and all
that was read was current. -/
structure Coherent (h : RegHistory) : Prop where
  seen : ∀ r, h.sys.seen r = h.current r
  reads : ∀ rd ∈ h.reads, rd.value = rd.current

/-- Where the elements 14 and 15 of the array do not matter, or agree with the SIE
control block. -/
def splitOk (h : RegHistory) : GuestEvent → Prop
  | .storeGpr (.ok gpr) (.ok val) =>
    gpr.toNat < 14 ∨ 15 < gpr.toNat ∨ val = h.sys.seen (Fin.ofNat 16 gpr.toNat)
  | .reset r => r.clearsGpr = true → h.sys.sie.gg14 = 0 ∧ h.sys.sie.gg15 = 0
  | .iplLoad => h.sys.sie.gg14 = 0 ∧ h.sys.sie.gg15 = 0
  | .displayGpr => h.sys.regs.gpr 14 = h.sys.sie.gg14 ∧ h.sys.regs.gpr 15 = h.sys.sie.gg15
  | .round x _ =>
    h.sys.state = .operating → h.sys.EntersSie → InterceptedIo x.sie → 14 ≤ baseS1 x.sie →
      archMask x.sie (h.sys.regs.gpr (baseS1 x.sie)) = archMask x.sie (x.gpr (baseS1 x.sie))
  | _ => True

/-! ### The operands of an I/O instruction -/

/-- Only the registers in the list are read for the operand address. -/
theorem rawS1_congr {sie : SieCb} {gpr gpr' : Fin 16 → BitVec 64}
    (h : ∀ r ∈ operandRegs sie, gpr r = gpr' r) : rawS1 sie gpr = rawS1 sie gpr' := by
  unfold rawS1 _guestAddr
  by_cases hbase : baseS1 sie = 0
  · simp [hbase]
  · have hmem : baseS1 sie ∈ operandRegs sie := by simp [operandRegs, hbase]
    simp [hbase, h _ hmem]

/-- The guest with other values in the array. -/
def VirtSys.withGpr (gpr : Fin 16 → BitVec 64) (s : VirtSys) : VirtSys :=
  { s with regs := { s.regs with gpr } }

/-- The handler does the same with the registers in `gpr`. -/
def ReadsAlike (f : InterceptHandler) (s : VirtSys) (gpr : Fin 16 → BitVec 64) : Prop :=
  f (s.withGpr gpr) = (f s).map fun (ret, t) => (ret, t.withGpr gpr)

/-- **An I/O instruction reads its operand's registers only**: with those the same, it does the
same. -/
theorem ioInstruction_readsAlike {s : VirtSys} {gpr : Fin 16 → BitVec 64}
    (hgpr : ∀ r ∈ operandRegs s.sie, gpr r = s.regs.gpr r)
    (h : BitVec 64 → BitVec 64 → Guest → Option (Int × Guest)) :
    ReadsAlike (ioInstruction h) s gpr := by
  have hread : ∀ r ∈ operandRegs s.sie, _guestGpr (s.withGpr gpr) r = _guestGpr s r := fun r hr =>
    congrArg (archMask s.sie) (hgpr r hr)
  have hone : (1 : Fin 16) ∈ operandRegs s.sie := by
    unfold operandRegs
    split_ifs
    · exact List.mem_cons_self ..
    · exact List.mem_cons_self ..
  have haddr : rawS1 (s.withGpr gpr).sie (_guestGpr (s.withGpr gpr)) = rawS1 s.sie (_guestGpr s) :=
    rawS1_congr hread
  unfold ReadsAlike ioInstruction
  rw [haddr, hread 1 hone]
  cases rawS1 s.sie (_guestGpr s) with
  | none => rfl
  | some addr =>
    show (h (_guestGpr s 1) addr s.guest).bind _
      = Option.map _ ((h (_guestGpr s 1) addr s.guest).bind _)
    cases h (_guestGpr s 1) addr s.guest with
    | none => rfl
    | some r => rfl

/-- An intercepted instruction reads the general registers of its operand only, and only where
it is an I/O instruction. -/
theorem handleInstruction_readsAlike {y : SschEnv} {s : VirtSys} {gpr : Fin 16 → BitVec 64}
    (hcode : s.sie.icptcode >>> 2 = 1)
    (hgpr : InterceptedIo s.sie → ∀ r ∈ operandRegs s.sie, gpr r = s.regs.gpr r) :
    ReadsAlike (handleInstruction y) s gpr := by
  have hipa : (s.withGpr gpr).sie.ipa = s.sie.ipa := rfl
  unfold ReadsAlike handleInstruction handleInstructionPriv
  rw [hipa]
  by_cases hb2 : s.sie.ipa >>> 8 = 0xb2
  · rw [if_pos hb2, if_pos hb2]
    have hio : 0x32 ≤ (s.sie.ipa &&& 0xff).toNat → (s.sie.ipa &&& 0xff).toNat ≤ 0x35 →
        InterceptedIo s.sie := fun hlo hhi => ⟨hcode, hb2, hlo, hhi⟩
    generalize (s.sie.ipa &&& 0xff).toNat = n at hio
    unfold instructionPrivFuncs
    split
    · next heq =>
      split at heq
      · cases heq
        exact ioInstruction_readsAlike (hgpr (hio (by decide) (by decide))) _
      · cases heq
        exact ioInstruction_readsAlike (hgpr (hio (by decide) (by decide))) _
      · cases heq
        exact ioInstruction_readsAlike (hgpr (hio (by decide) (by decide))) _
      · cases heq
        exact ioInstruction_readsAlike (hgpr (hio (by decide) (by decide))) _
      · exact nomatch heq
    · rfl
  · rw [if_neg hb2, if_neg hb2]
    rfl

/-- **No other register is read for an intercept** than those an I/O instruction has its
operands in. -/
theorem handleInterception_readsAlike {y : SschEnv} {s : VirtSys} {gpr : Fin 16 → BitVec 64}
    (hgpr : InterceptedIo s.sie → ∀ r ∈ operandRegs s.sie, gpr r = s.regs.gpr r) :
    handleInterception y (s.withGpr gpr) = (handleInterception y s).map (withGpr gpr) := by
  have hcode : (s.withGpr gpr).sie.icptcode = s.sie.icptcode := rfl
  unfold handleInterception
  rw [hcode]
  dsimp only
  split_ifs with hlt
  · cases hfunc : interceptFuncs y (s.sie.icptcode >>> 2).toNat with
    | none => rfl
    | some f =>
      have halike : ReadsAlike f s gpr := by
        by_cases hone : (s.sie.icptcode >>> 2).toNat = 1
        · rw [hone] at hfunc
          obtain rfl := Option.some.inj hfunc
          exact handleInstruction_readsAlike (BitVec.eq_of_toNat_eq hone) hgpr
        · unfold interceptFuncs at hfunc
          split at hfunc
          all_goals cases hfunc
          all_goals first | rfl | exact absurd ‹_› hone
      show Option.map _ (f (s.withGpr gpr)) = _
      rw [halike, Option.map_map, Option.map_map]
      congr 1
      funext r
      show (if r.1 ≠ 0 then (r.2.withGpr gpr).stop else r.2.withGpr gpr)
        = (if r.1 ≠ 0 then r.2.stop else r.2).withGpr gpr
      split_ifs
      · rfl
      · rfl
  · rfl

/-! ### One event -/

variable {s t : VirtSys} {h : RegHistory}

/-- Registers that are the same look the same to the guest. -/
theorem VirtSys.SameGprs.seen (hsame : SameGprs s t) (r : Fin 16) : t.seen r = s.seen r := by
  unfold VirtSys.seen
  rw [hsame.gpr, hsame.gg14, hsame.gg15]

/-- An event in which no register is put or read. -/
theorem Coherent.same (hco : Coherent h) (hsame : SameGprs h.sys t) :
    Coherent ⟨t, h.current, h.reads ++ []⟩ where
  seen r := (hsame.seen r).trans (hco.seen r)
  reads := by simpa using hco.reads

/-- What the guest sees after SIE is what it left there. -/
theorem leaveSie_seen (x : SieEnd) (s : VirtSys) (r : Fin 16) :
    (s.leaveSie x).seen r = x.gpr r := by
  unfold VirtSys.seen leaveSie
  split_ifs with h14 h15
  · rw [h14]
  · rw [h15]
  · exact if_pos (by omega)

/-- A store into the array shows only below register 14. -/
theorem setGpr_seen (gpr r : Fin 16) (val : BitVec 64) (s : VirtSys) :
    (s.setGpr gpr val).seen r = if r = gpr ∧ gpr.val < 14 then val else s.seen r := by
  unfold VirtSys.seen setGpr
  dsimp only
  split_ifs with h14 h h15 h h
  · omega
  · rfl
  · omega
  · rfl
  · rw [h.1, Function.update_self]
  · exact Function.update_of_ne (fun heq => h ⟨heq, by omega⟩) ..

/-- A store into the array that the guest sees, or that changes nothing it would see. -/
theorem setGpr_coherent_iff (hco : Coherent h) (gpr : Fin 16) (val : BitVec 64) :
    Coherent ⟨h.sys.setGpr gpr val, Function.update h.current gpr val, h.reads ++ []⟩ ↔
      gpr.val < 14 ∨ val = h.sys.seen gpr := by
  constructor
  · intro hco'
    have hseen : (h.sys.setGpr gpr val).seen gpr = Function.update h.current gpr val gpr :=
      hco'.seen gpr
    rw [setGpr_seen, Function.update_self] at hseen
    by_cases hlow : gpr.val < 14
    · exact Or.inl hlow
    · rw [if_neg fun h => hlow h.2] at hseen
      exact Or.inr hseen.symm
  · intro hok
    refine ⟨fun r => ?_, by simpa using hco.reads⟩
    show (h.sys.setGpr gpr val).seen r = Function.update h.current gpr val r
    rw [setGpr_seen]
    rcases eq_or_ne r gpr with rfl | hne
    · rw [Function.update_self]
      rcases hok with hlow | rfl
      · exact if_pos ⟨rfl, hlow⟩
      · exact ite_self _
    · rw [if_neg fun h => hne h.1, Function.update_of_ne hne]
      exact hco.seen r

/-- **STORE GPR.** -/
theorem storeGpr_coherent_iff (hco : Coherent h) (gpr val : Except Int (BitVec 64)) :
    Coherent ⟨(cmdStoreGpr gpr val h.sys).2, putRegs h.sys h.current (.storeGpr gpr val),
      h.reads ++ []⟩ ↔ splitOk h (.storeGpr gpr val) := by
  cases gpr with
  | error ret => exact iff_of_true (hco.same (SameGprs.refl _)) trivial
  | ok gpr =>
    by_cases hbig : gpr > 15
    · have hcmd : (cmdStoreGpr (.ok gpr) val h.sys).2 = h.sys := by
        simp only [cmdStoreGpr, if_pos hbig]
      rw [hcmd]
      cases val with
      | error ret => exact iff_of_true (hco.same (SameGprs.refl _)) trivial
      | ok val =>
        have hput : putRegs h.sys h.current (.storeGpr (.ok gpr) (.ok val)) = h.current :=
          if_pos hbig
        rw [hput]
        refine iff_of_true (hco.same (SameGprs.refl _)) (Or.inr (Or.inl ?_))
        simpa [BitVec.lt_def] using hbig
    · have hle : gpr.toNat ≤ 15 := by simpa [BitVec.lt_def] using hbig
      cases val with
      | error ret =>
        have hcmd : (cmdStoreGpr (.ok gpr) (.error ret) h.sys).2 = h.sys := by
          simp only [cmdStoreGpr, if_neg hbig]
        rw [hcmd]
        exact iff_of_true (hco.same (SameGprs.refl _)) trivial
      | ok val =>
        have hput : putRegs h.sys h.current (.storeGpr (.ok gpr) (.ok val))
            = Function.update h.current (Fin.ofNat 16 gpr.toNat) val := if_neg hbig
        have hcmd : (cmdStoreGpr (.ok gpr) (.ok val) h.sys).2
            = h.sys.setGpr (Fin.ofNat 16 gpr.toNat) val := by
          simp only [cmdStoreGpr, if_neg hbig]
        have hval : (Fin.ofNat 16 gpr.toNat).val = gpr.toNat := Nat.mod_eq_of_lt (by omega)
        rw [hcmd, hput, setGpr_coherent_iff hco, hval]
        constructor
        · exact fun h => h.imp id Or.inr
        · exact fun h => h.imp id (Or.resolve_left · (by omega))

/-- **A reset that clears the registers** stores into the array only. -/
theorem cleared_coherent_iff (hco : Coherent h) (hgpr : t.regs.gpr = fun _ => 0)
    (hgg14 : t.sie.gg14 = h.sys.sie.gg14) (hgg15 : t.sie.gg15 = h.sys.sie.gg15) :
    Coherent ⟨t, fun _ => 0, h.reads ++ []⟩ ↔ h.sys.sie.gg14 = 0 ∧ h.sys.sie.gg15 = 0 := by
  constructor
  · intro hco'
    exact ⟨hgg14.symm.trans (hco'.seen 14), hgg15.symm.trans (hco'.seen 15)⟩
  · rintro ⟨h14, h15⟩
    refine ⟨fun r => ?_, by simpa using hco.reads⟩
    show t.seen r = 0
    unfold VirtSys.seen
    rw [hgpr, hgg14, hgg15, h14, h15]
    split_ifs
    · rfl
    · rfl
    · rfl

/-- A reset clears the registers in `regs` if it is one that clears, and never the two in the
SIE block. -/
theorem systemReset_gprs (r : SystemReset) (s : VirtSys) :
    (systemReset r s).sie.gg14 = s.sie.gg14 ∧ (systemReset r s).sie.gg15 = s.sie.gg15 ∧
      (systemReset r s).regs.gpr = if r.clearsGpr then fun _ => 0 else s.regs.gpr := by
  cases r with
  | powerOn => exact ⟨rfl, rfl, rfl⟩
  | normal => exact ⟨rfl, rfl, rfl⟩
  | clear => exact ⟨rfl, rfl, rfl⟩
  | loadNormal => exact ⟨rfl, rfl, rfl⟩
  | loadClear => exact ⟨rfl, rfl, rfl⟩

/-- **DISPLAY GPR.** -/
theorem displayGpr_coherent_iff (hco : Coherent h) :
    Coherent ⟨h.sys, h.current, h.reads ++ readRegs h.sys h.current .displayGpr⟩ ↔
      splitOk h .displayGpr := by
  have hread : ∀ r : Fin 16, (cmdDisplayGpr h.sys).getD r 0 = h.sys.regs.gpr r := fun r => by
    simp [cmdDisplayGpr]
  constructor
  · intro hco'
    have hreg : ∀ r, h.sys.regs.gpr r = h.sys.seen r := fun r => by
      have hmem : (⟨r, (cmdDisplayGpr h.sys).getD r 0, h.current r⟩ : RegRead) ∈
          readRegs h.sys h.current .displayGpr := List.mem_map.2 ⟨r, List.mem_finRange r, rfl⟩
      rw [← hread r, hco.seen r]
      exact hco'.reads _ (List.mem_append_right _ hmem)
    exact ⟨hreg 14, hreg 15⟩
  · rintro ⟨h14, h15⟩
    refine ⟨hco.seen, fun rd hrd => ?_⟩
    rcases List.mem_append.1 hrd with hrd | hrd
    · exact hco.reads rd hrd
    · obtain ⟨r, -, rfl⟩ := List.mem_map.1 hrd
      rw [hread, ← hco.seen r]
      unfold VirtSys.seen
      split_ifs with hr14 hr15
      · rw [hr14, h14]
      · rw [hr15, h15]
      · rfl

/-- **A round of the loop.** -/
theorem round_coherent_iff {x : SieEnd} {y : SschEnv} (hco : Coherent h)
    (hstep : h.sys.shellRound x y = some t) :
    Coherent ⟨t, putRegs h.sys h.current (.round x y),
      h.reads ++ readRegs h.sys h.current (.round x y)⟩ ↔ splitOk h (.round x y) := by
  have hin := h.sys.enterSie_spec.1
  by_cases hentered : h.sys.state = .operating ∧ h.sys.enterSie.1
  · have henters := hin.1 hentered.2
    have hput : putRegs h.sys h.current (.round x y) = x.gpr := if_pos hentered
    have hhandled : Handled (h.sys.enterSie.2.leaveSie x) t := by
      rcases shellRound_cases hstep with ⟨hidle, -⟩ | ⟨-, hnot, -⟩ | ⟨-, -, hhandled⟩
      · exact absurd hentered.1 hidle
      · exact absurd henters hnot
      · exact hhandled
    have hseen : ∀ r, t.seen r = x.gpr r := fun r =>
      (hhandled.gprs.seen r).trans (leaveSie_seen x _ r)
    rw [hput]
    by_cases hio : InterceptedIo x.sie
    · have hreads : readRegs h.sys h.current (.round x y) = (operandRegs x.sie).map fun r =>
          ⟨r, _guestGpr (h.sys.enterSie.2.leaveSie x) r, archMask x.sie (x.gpr r)⟩ :=
        if_pos ⟨hentered, hio⟩
      have hvalue : ∀ r, _guestGpr (h.sys.enterSie.2.leaveSie x) r
          = archMask x.sie (if r < 14 then x.gpr r else h.sys.regs.gpr r) := fun r => by
        rw [← h.sys.enterSie_gprs.gpr]
        rfl
      rw [hreads]
      constructor
      · intro hco' _ _ _ hbase
        have hne : baseS1 x.sie ≠ 0 := by omega
        have hmem : baseS1 x.sie ∈ operandRegs x.sie := by simp [operandRegs, hne]
        have hright := hco'.reads _ (List.mem_append_right _ (List.mem_map_of_mem hmem))
        rwa [hvalue, if_neg (by omega)] at hright
      · intro hok
        refine ⟨hseen, fun rd hrd => ?_⟩
        rcases List.mem_append.1 hrd with hrd | hrd
        · exact hco.reads rd hrd
        · obtain ⟨r, hr, rfl⟩ := List.mem_map.1 hrd
          dsimp only
          rw [hvalue]
          by_cases hlow : r < 14
          · rw [if_pos hlow]
          · -- Register 1 is in the array, so this one is the base register.
            have hbase : r = baseS1 x.sie := by
              unfold operandRegs at hr
              split_ifs at hr
              · rcases List.mem_pair.1 hr with rfl | hr
                · exact absurd (by decide) hlow
                · exact hr
              · rw [List.mem_singleton.1 hr] at hlow
                exact absurd (by decide) hlow
            rw [if_neg hlow, hbase]
            exact hok hentered.1 henters hio (by omega)
    · have hreads : readRegs h.sys h.current (.round x y) = [] := if_neg fun h => hio h.2
      rw [hreads]
      exact iff_of_true ⟨hseen, by simpa using hco.reads⟩ fun _ _ hio' => absurd hio' hio
  · have hput : putRegs h.sys h.current (.round x y) = h.current := if_neg hentered
    have hreads : readRegs h.sys h.current (.round x y) = [] := if_neg fun h => hentered h.1
    have hsame : SameGprs h.sys t := by
      rcases shellRound_cases hstep with ⟨-, rfl⟩ | ⟨-, -, rfl⟩ | ⟨hop, henters, -⟩
      · exact SameGprs.refl _
      · exact h.sys.enterSie_gprs
      · exact absurd ⟨hop, hin.2 henters⟩ hentered
    rw [hput, hreads]
    exact iff_of_true (hco.same hsame) fun hop henters => absurd ⟨hop, hin.2 henters⟩ hentered

/-- **Every event** keeps the register file coherent exactly when it does not meet the
elements 14 and 15 of the array, or they agree with the control block. -/
theorem regStep_coherent_iff {h' : RegHistory} {e : GuestEvent} (hco : Coherent h)
    (hstep : regStep h e = some h') : Coherent h' ↔ splitOk h e := by
  obtain ⟨t, ht, rfl⟩ := Option.map_eq_some_iff.1 hstep
  cases e with
  | guestBegin =>
    obtain rfl := Option.some.inj ht
    refine iff_of_true (hco.same ?_) trivial
    unfold guestBegin
    split
    · exact ⟨rfl, rfl, rfl⟩
    · exact ⟨rfl, rfl, rfl⟩
    · exact SameGprs.refl _
  | guestStop =>
    obtain rfl := Option.some.inj ht
    refine iff_of_true (hco.same ?_) trivial
    unfold guestStop
    split
    · exact ⟨rfl, rfl, rfl⟩
    · exact ⟨rfl, rfl, rfl⟩
    · exact SameGprs.refl _
  | iplFail =>
    obtain rfl := Option.some.inj ht
    exact iff_of_true (hco.same ⟨rfl, rfl, rfl⟩) trivial
  | iplLoad =>
    obtain rfl := Option.some.inj ht
    exact cleared_coherent_iff hco rfl rfl rfl
  | iplLoaded gpsw cpuflags =>
    obtain rfl := Option.some.inj ht
    exact iff_of_true (hco.same ⟨rfl, rfl, rfl⟩) trivial
  | reset r =>
    obtain rfl := Option.some.inj ht
    obtain ⟨hgg14, hgg15, hgpr⟩ := systemReset_gprs r h.sys
    unfold putRegs readRegs splitOk
    dsimp only
    cases hclears : r.clearsGpr with
    | true =>
      rw [hclears, if_pos rfl] at hgpr
      rw [if_pos rfl, cleared_coherent_iff hco hgpr hgg14 hgg15]
      exact ⟨fun h _ => h, fun h => h rfl⟩
    | false =>
      rw [hclears, if_neg Bool.false_ne_true] at hgpr
      rw [if_neg Bool.false_ne_true]
      exact iff_of_true (hco.same ⟨hgpr, hgg14, hgg15⟩) nofun
  | round x y => exact round_coherent_iff hco ht
  | storeGpr gpr val =>
    obtain rfl := Option.some.inj ht
    exact storeGpr_coherent_iff hco gpr val
  | displayGpr =>
    obtain rfl := Option.some.inj ht
    exact displayGpr_coherent_iff hco
  | env u =>
    obtain rfl := Option.some.inj ht
    exact iff_of_true (hco.same ⟨rfl, rfl, rfl⟩) trivial

/-! ### Runs -/

/-- A guest whose registers are what it would be entered with. -/
def RegHistory.init (s : VirtSys) : RegHistory := ⟨s, s.seen, []⟩

/-- **Exactly when the guest has one register file.**  In a run from any state, the
guest is entered with what the guest, STORE GPR or a clearing reset put into each
register last, and every value read for a register is its current one, exactly when
each event that stores into elements 14 and 15 of the array or reads them finds there,
or stores there, what is in the SIE control block. -/
theorem oneRegisterFile_iff {s : VirtSys} {ls : List GuestEvent} {h : RegHistory}
    (hrun : Run (fun h e h' => regStep h e = some h') (.init s) ls h) :
    (∀ ls' h', ls' <+: ls →
        Run (fun h e h' => regStep h e = some h') (.init s) ls' h' → Coherent h') ↔
      Run (guarded splitOk fun h e h' => regStep h e = some h') (.init s) ls h :=
  Run.always_iff (P := fun _ h => Coherent h)
    (fun _ _ _ _ h₁ h₂ => Option.some.inj (h₁.symm.trans h₂))
    ⟨fun _ => rfl, fun _ hrd => absurd hrd List.not_mem_nil⟩
    (fun _ _ _ _ _ hco hstep => regStep_coherent_iff hco hstep) hrun

/-- A check of `splitOk`, which asks of a round that the base register is in the array. -/
def splitCheck (h : RegHistory) : GuestEvent → Bool
  | .storeGpr (.ok gpr) (.ok val) =>
    gpr.toNat < 14 || 15 < gpr.toNat || val = h.sys.seen (Fin.ofNat 16 gpr.toNat)
  | .reset _ | .iplLoad => h.sys.sie.gg14 = 0 && h.sys.sie.gg15 = 0
  | .displayGpr =>
    h.sys.regs.gpr 14 = h.sys.sie.gg14 && h.sys.regs.gpr 15 = h.sys.sie.gg15
  | .round x _ => baseS1 x.sie < 14
  | _ => true

/-- The check of the examples is enough for the condition of the theorem. -/
theorem splitOk_of_splitCheck (h : RegHistory) (e : GuestEvent) (hcheck : splitCheck h e = true) :
    splitOk h e := by
  cases e with
  | storeGpr gpr val =>
    cases gpr with
    | error ret => trivial
    | ok gpr =>
      cases val with
      | error ret => trivial
      | ok val => simpa [splitCheck, splitOk, or_assoc] using hcheck
  | reset r => exact fun _ => by simpa [splitCheck] using hcheck
  | iplLoad => simpa [splitCheck, splitOk] using hcheck
  | displayGpr => simpa [splitCheck, splitOk] using hcheck
  | round x y =>
    intro _ _ _ hbase
    exact absurd hbase (not_le.2 (of_decide_eq_true hcheck))
  | guestBegin => trivial
  | guestStop => trivial
  | iplFail => trivial
  | iplLoaded gpsw cpuflags => trivial
  | env u => trivial

/-- The guest leaves SIE with a STSCH to the address in register 2, and `val` in register 14. -/
def stschEnd (val : BitVec 64) : SieEnd where
  gpr r := if r = 1 then 0x10000 else if r = 2 then 0x200 else if r = 3 then 0x1000
    else if r = 14 then val else 0
  sie := { newGuest.sie with icptcode := 4, ipa := 0xb234, ipb := 0x20000000 }
  mem := newGuest.mem

/-- STORE GPR, two rounds with an intercepted STSCH each, the second of which leaves 0 in
register 14, DISPLAY GPR and a clearing reset. -/
def regEvents : List GuestEvent :=
  [.storeGpr (.ok 3) (.ok 0x1000), .guestBegin,
    .round (stschEnd 0x77) ⟨none, fun _ => ⟨true, [], fun _ => 0⟩, true, 0⟩,
    .round (stschEnd 0) ⟨none, fun _ => ⟨true, [], fun _ => 0⟩, true, 0⟩,
    .guestStop, .displayGpr, .reset .clear]

/-- SIE rounds, a register command, and a reset of a guest whose registers 14 and 15 are 0:
the register file is one all along. -/
theorem oneRegisterFile_rounds : ∃ h,
    Run (fun h e h' => regStep h e = some h') (.init newGuest) regEvents h ∧
    h.reads.length = 20 ∧
    ∀ ls' h', ls' <+: regEvents →
      Run (fun h e h' => regStep h e = some h') (.init newGuest) ls' h' → Coherent h' := by
  have hsome : (regEvents.foldlM (fun h e => if splitCheck h e then regStep h e else none)
      (.init newGuest)).map (fun h => h.reads.length) = some 20 := by decide +kernel
  obtain ⟨h, hh, hreads⟩ := Option.map_eq_some_iff.1 hsome
  have hrun : Run (guarded splitOk fun h e h' => regStep h e = some h') (.init newGuest)
      regEvents h := Run.of_checked splitOk_of_splitCheck hh
  exact ⟨h, hrun.of_guarded, hreads, (oneRegisterFile_iff hrun.of_guarded).2 hrun⟩

/-- After `STORE GPR 15 1000` the guest does not see the value: the command stores into
`regs`, and SIE runs with `gg15`. -/
theorem not_oneRegisterFile : ∃ h,
    Run (fun h e h' => regStep h e = some h') (.init newGuest)
      [.storeGpr (.ok 15) (.ok 0x1000)] h ∧ h.sys.seen 15 = 0 ∧ h.current 15 = 0x1000 ∧
      ¬ Coherent h := by
  have hseen : (cmdStoreGpr (.ok 15) (.ok 0x1000) newGuest).2.seen 15 = 0 := by decide +kernel
  have hcurrent :
      putRegs newGuest newGuest.seen (.storeGpr (.ok 15) (.ok 0x1000)) 15 = 0x1000 := by
    decide +kernel
  refine ⟨_, Run.nil.snoc rfl, hseen, hcurrent, fun hco => ?_⟩
  have hsame := hseen.symm.trans ((hco.seen 15).trans hcurrent)
  exact absurd hsame (by decide)

end Hvf
