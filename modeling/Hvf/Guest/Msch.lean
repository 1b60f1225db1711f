/-
# What MSCH changes

`handle_msch` of `cp/guest/instruction_priv.c` has six ways to end, and stores
into a device on one of them.  The device is the one that register 1 names, and of
it the members `mschFields` of the PMCW become those of the SCHIB; every other bit
of the device stays (`handleMsch_frame`).
-/

import Hvf.Guest.Tsch

namespace Hvf

open BitField

/-! ### The members of a PMCW -/

/-- The members that MSCH stores, in its order. -/
def mschFields : List (Σ len, Field 224 len) :=
  [⟨_, pmcwInterruptParam⟩, ⟨_, pmcwE⟩, ⟨_, pmcwIsc⟩, ⟨_, pmcwD⟩, ⟨_, pmcwLpm⟩, ⟨_, pmcwPom⟩,
    ⟨_, pmcwLm⟩, ⟨_, pmcwMm⟩, ⟨_, pmcwF⟩, ⟨_, pmcwX⟩, ⟨_, pmcwS⟩, ⟨_, pmcwMbi⟩]

/-- The other members. -/
def pmcwFixed : List (Σ len, Field 224 len) :=
  [⟨_, pmcwZero1⟩, ⟨_, pmcwZero2⟩, ⟨_, pmcwT⟩, ⟨_, pmcwV⟩, ⟨_, pmcwDevNum⟩, ⟨_, pmcwPnom⟩,
    ⟨_, pmcwLpum⟩, ⟨_, pmcwPim⟩, ⟨_, pmcwPam⟩, ⟨_, pmcwZero3⟩, ⟨_, pmcwZero4⟩] ++
    (List.finRange 8).map fun i => ⟨_, pmcwChpid i⟩

/-- The instruction's fields share no bit. -/
theorem mschFields_pairwise : mschFields.Pairwise fun f g => f.2.Disjoint g.2 := by
  decide

/-- No field that must stay has a bit of one the instruction stores. -/
theorem pmcwFixed_disjoint : ∀ f ∈ pmcwFixed, ∀ g ∈ mschFields, f.2.Disjoint g.2 := by
  decide

/-! ### How it ends -/

/-- The SCHIB's PMCW, as `memcpy_from_guest` delivers it. -/
def gschibPmcw (g : Guest) (addr : BitVec 64) : BitVec 224 :=
  schibPmcw.get (ofBytes 52 (fetchOperand g addr 52).data)

/-- What an MSCH that does not end with condition code 0 returns and leaves: an error,
a program exception, or another condition code. -/
inductive MschStops (g : Guest) : Int × Guest → Prop
  | error {ret : Int} : ret ≠ 0 → MschStops g (ret, g)
  | exception : MschStops g (0, queueProgException g)
  | cc {cc : BitVec 2} : cc ≠ 0 → MschStops g (0, { g with cc })

/-- What MSCH stores: the members `mschFields`, if the device number of the SCHIB is
valid, and nothing else. -/
structure MschStored (gpmcw : BitVec 224) (old new : VirtDevice) : Prop where
  rest : new = { old with pmcw := new.pmcw }
  invalid : pmcwV.get gpmcw = 0 → new = old
  stored : pmcwV.get gpmcw ≠ 0 → ∀ f ∈ mschFields, f.2.get new.pmcw = f.2.get gpmcw
  fixed : ∀ f ∈ pmcwFixed, f.2.get new.pmcw = f.2.get old.pmcw

/-- An MSCH that stops early has changed no subchannel. -/
theorem MschStops.vdevs {g : Guest} {r : Int × Guest} (h : MschStops g r) :
    r.2.vdevs = g.vdevs := by
  cases h with
  | error _ => rfl
  | exception => rfl
  | cc _ => rfl

/-- An operand that is not valid stores nothing. -/
theorem MschStored.refl {gpmcw : BitVec 224} (h : pmcwV.get gpmcw = 0) (vdev : VirtDevice) :
    MschStored gpmcw vdev vdev where
  rest := rfl
  invalid _ := rfl
  stored hv := absurd h hv
  fixed _ _ := rfl

/-- A valid operand stores the instruction's fields. -/
theorem MschStored.msch {gpmcw : BitVec 224} (h : pmcwV.get gpmcw ≠ 0) (vdev : VirtDevice) :
    MschStored gpmcw vdev { vdev with pmcw := mschPmcw gpmcw vdev.pmcw } where
  rest := rfl
  invalid hv := absurd hv h
  stored _ := get_copyFields mschFields_pairwise gpmcw vdev.pmcw
  fixed f hf := get_copyFields_of_disjoint (pmcwFixed_disjoint f hf) gpmcw vdev.pmcw

/-! ### The device -/

/-- The device that the search finds is the first with the number, and a store goes
there. -/
theorem setVdev_split {vdevs : List VirtDevice} {sch : BitVec 32} {old : VirtDevice}
    (h : findVdev vdevs sch = some old) :
    ∃ before after, vdevs = before ++ old :: after ∧ (∀ vdev ∈ before, vdev.sch ≠ sch) ∧
      ∀ new : VirtDevice, new.sch = sch → setVdev vdevs new = before ++ new :: after := by
  induction vdevs with
  | nil => cases h
  | cons v vdevs ih =>
    rw [findVdev, List.find?_cons] at h
    by_cases hv : v.sch = sch
    · rw [decide_eq_true hv] at h
      obtain rfl := Option.some.inj h
      refine ⟨[], vdevs, rfl, fun _ hmem => absurd hmem List.not_mem_nil, fun new hnew => ?_⟩
      rw [setVdev, if_pos (hv.trans hnew.symm), List.nil_append]
    · rw [decide_eq_false hv] at h
      obtain ⟨before, after, rfl, hbefore, hset⟩ := ih h
      refine ⟨v :: before, after, rfl, fun vdev hmem => ?_, fun new hnew => ?_⟩
      · rcases List.mem_cons.1 hmem with rfl | hmem
        · exact hv
        · exact hbefore vdev hmem
      · rw [setVdev, if_neg fun heq => hv (heq.trans hnew), hset new hnew, List.cons_append]

variable {r1 addr : BitVec 64} {g : Guest}

/-- An operand that cannot be read stops the instruction. -/
theorem vdevOperand_stops {g' : Guest} (h : vdevOperand r1 addr g = .error g') :
    MschStops g (0, g') := by
  unfold vdevOperand at h
  split_ifs at h
  · obtain rfl := Except.error.inj h
    exact .exception
  · obtain rfl := Except.error.inj h
    exact .exception
  · split at h
    · obtain rfl := Except.error.inj h
      exact .cc (by decide)
    · cases h

/-- **MSCH changes exactly what it may.**  It ends without condition code 0 and leaves
every device alone, or it ends with condition code 0 and stores into the device that
register 1 names, of that device what it may store, and nowhere else. -/
theorem handleMsch_frame (r1 addr : BitVec 64) (g : Guest) :
    (MschStops g (handleMsch r1 addr g) ∧ (handleMsch r1 addr g).2.vdevs = g.vdevs) ∨
    ∃ before old new after, g.vdevs = before ++ old :: after ∧
      (∀ vdev ∈ before, vdev.sch ≠ r1.setWidth 32) ∧ old.sch = r1.setWidth 32 ∧
      handleMsch r1 addr g = (0, { g with vdevs := before ++ new :: after, cc := 0 }) ∧
      MschStored (gschibPmcw g addr) old new := by
  have hstops : ∀ {r}, MschStops g r → MschStops g r ∧ r.2.vdevs = g.vdevs :=
    fun h => ⟨h, h.vdevs⟩
  unfold handleMsch
  cases hoperand : vdevOperand r1 addr g with
  | error g' => exact Or.inl (hstops (vdevOperand_stops hoperand))
  | ok old =>
    have hfind := vdevOperand_find hoperand
    have hsch : old.sch = r1.setWidth 32 := of_decide_eq_true
      (List.find?_some (p := fun v : VirtDevice => decide (v.sch = r1.setWidth 32)) hfind)
    obtain ⟨before, after, hvdevs, hbefore, hset⟩ := setVdev_split hfind
    dsimp only
    split_ifs with hret hfault hpending hprogress hv
    · exact Or.inl (hstops (.error hret))
    · exact Or.inl (hstops .exception)
    · exact Or.inl (hstops (.cc (by decide)))
    · exact Or.inl (hstops (.cc (by decide)))
    · refine Or.inr ⟨before, old, old, after, hvdevs, hbefore, hsch, ?_, .refl hv old⟩
      rw [← hvdevs]
    · have hnew := hset { old with pmcw := mschPmcw (gschibPmcw g addr) old.pmcw } hsch
      refine Or.inr ⟨before, old, { old with pmcw := mschPmcw (gschibPmcw g addr) old.pmcw },
        after, hvdevs, hbefore, hsch, ?_, .msch hv old⟩
      rw [← hnew]
      rfl

end Hvf
