/-
# The buddy allocator partitions its storage

Every page that `init_buddy_alloc` put on a list is, after any run of
`alloc_pages` and `free_pages`, in exactly one block: on one list or in the
hands of one caller.  The statement is an equation of multisets of pages, so it
says at once that no page is lost and, the initial pages being distinct
(`initPages_nodup`), that no page is in two blocks.

`BuddyInv` is the invariant.  One step keeps it because of what one call moves
(`Hvf.Mm.BuddyMoves`), it holds at the start because `init_buddy_alloc` is exact
(`Hvf.Mm.BuddyInit`), and `Run.invariant` carries it through every run.
-/

import Hvf.Mm.BuddyInit

namespace Hvf

open NumberedBins StepRun

/-- The free blocks and the blocks handed out have the pages `pages`, and every
block is in one zone. -/
structure BuddyInv (pages : Multiset ℕ) (s : BuddyState) : Prop where
  cover : pagesOf (s.buddy.free + s.out) = pages
  zoned : Zoned s.buddy
  out : ∀ x ∈ s.out, LowBlock x ∨ NormalBlock x

/-- The pages the allocator begins with are different ones. -/
theorem initPages_nodup (memsize start : BitVec 64) : (initPages memsize start).Nodup := by
  refine (Multiset.Nodup.add_iff (Multiset.nodup_Ico ..) (Multiset.nodup_Ico ..)).2 ?_
  refine Multiset.disjoint_left.2 fun {p} hnormal hlow => ?_
  simp only [Multiset.mem_Ico, addrToPage_eq] at hnormal hlow
  have hmin : min memsize.toNat zoneLowEnd ≤ zoneLowEnd := min_le_right ..
  have := Nat.div_le_div_right (c := 4096) hmin
  omega

/-- **One step.** -/
theorem BuddyStep.inv {pages : Multiset ℕ} {s s' : BuddyState} {ev : BuddyEvent}
    (hstep : BuddyStep s ev s') (h : BuddyInv pages s) : BuddyInv pages s' := by
  cases hstep with
  | @alloc order type page b halloc =>
      obtain ⟨hzoned, hpages, hblock⟩ := allocPages_moves halloc h.zoned
      have hcover := h.cover
      rw [pagesOf_add, hpages] at hcover
      cases page with
      | none => exact ⟨by rw [pagesOf_add, ← hcover, Option.elim_none, Option.elim_none, zero_add],
          hzoned, h.out⟩
      | some p =>
          refine ⟨?_, hzoned, fun x hx => ?_⟩
          · rw [← hcover, Option.elim_some, Option.elim_some, pagesOf_add, pagesOf_cons]
            abel
          · rcases Multiset.mem_cons.1 hx with rfl | hx
            · exact hblock p rfl
            · exact h.out x hx
  | @free order page b hout hfree =>
      obtain ⟨hmoved, hzoned⟩ := freePages_moves hfree h.zoned (h.out _ hout)
      refine ⟨?_, hzoned, fun x hx => h.out x (Multiset.mem_of_mem_erase hx)⟩
      rw [← h.cover, hmoved, Multiset.cons_add, ← Multiset.add_cons, Multiset.cons_erase hout]

/-- Behind an exact initialization the lists partition these pages. -/
theorem buddyInv_init {memsize start : BitVec 64} (hinit : InitExact memsize start) :
    BuddyInv (initPages memsize start) (.init memsize start) := by
  refine ⟨?_, hinit.zoned, ?_⟩
  · rw [BuddyState.init, add_zero, Buddy.free, pagesOf_add, hinit.normal, hinit.low, initPages]
  · simp [BuddyState.init]

/-- **Pages are neither lost nor shared.**  After any run from an exact
`init_buddy_alloc`, the blocks on the lists and the blocks handed out together
have each initial page exactly once; a block on list `k` is `2^k` consecutive
pages (`blockPages`), and each list holds blocks of its own zone. -/
theorem buddy_partition {memsize start : BitVec 64} (hinit : InitExact memsize start)
    {evs : List BuddyEvent} {s : BuddyState}
    (hrun : Run BuddyStep (.init memsize start) evs s) :
    (initPages memsize start).Nodup ∧
      pagesOf (s.buddy.free + s.out) = initPages memsize start ∧
      (∀ k, ∀ base ∈ s.buddy.ordersLow k, ∀ p ∈ blockPages (k, base), pageToAddr p < zoneLowEnd) ∧
      (∀ k, ∀ base ∈ s.buddy.ordersNormal k, ∀ p ∈ blockPages (k, base),
        zoneLowEnd ≤ pageToAddr p) := by
  have hinv : BuddyInv (initPages memsize start) s :=
    hrun.invariant (buddyInv_init hinit) fun _ _ _ h hstep => hstep.inv h
  refine ⟨initPages_nodup .., hinv.cover, fun k base hbase p hp => ?_, fun k base hbase p hp => ?_⟩
  · have hblock := (hinv.zoned.low (k, base) (by rw [mem_items]; exact ⟨k, rfl, hbase⟩)).2
    rw [blockPages, Multiset.mem_Ico] at hp
    rw [pageToAddr_eq, show zoneLowEnd = 4096 * 2 ^ 19 from rfl]
    simp only at hblock hp
    omega
  · have hblock := (hinv.zoned.normal (k, base) (by rw [mem_items]; exact ⟨k, rfl, hbase⟩)).2
    rw [blockPages, Multiset.mem_Ico] at hp
    rw [pageToAddr_eq, show zoneLowEnd = 4096 * 2 ^ 19 from rfl]
    simp only at hblock hp
    omega

/-- With 64MB of storage and the first free page at 4.25MB, a page is taken from
`ZONE_LOW` (a larger block is split for it) and given back. -/
theorem buddy_partition_64MB : ∃ s,
    Run BuddyStep (.init 0x4000000 0x440000)
      [.alloc 0 .low (some 1088), .free (pageToAddr 1088) 0] s ∧
      pagesOf (s.buddy.free + s.out) = initPages 0x4000000 0x440000 := by
  have halloc : ((allocPages 0 .low (initBuddyAlloc 0x4000000 0x440000)).map (·.1))
      = some (some 1088) := by decide
  obtain ⟨⟨page, b⟩, halloc, rfl⟩ := Option.map_eq_some_iff.1 halloc
  obtain ⟨b', hfree⟩ : ∃ b', freePages (pageToAddr 1088) 0 b = some b' := by
    simp [freePages, listAdd, isLowZone_iff, zoneLowMaxOrder, pageShift]
  have hrun := (Run.nil.snoc (BuddyStep.alloc (s := .init 0x4000000 0x440000) halloc)).snoc
    (BuddyStep.free (Multiset.mem_cons_self (0, 1088) 0) hfree)
  have hexact : InitExact 0x4000000 0x440000 :=
    initExact_of_lt (by decide) (by decide) (by decide) (by decide) (by decide)
  exact ⟨_, hrun, (buddy_partition hexact hrun).2.1⟩

end Hvf
