/-
# Which zone `alloc_pages` takes a block from

`__alloc_pages` looks for a `ZONE_NORMAL` request at `orders_normal` and falls back to
`orders_low`, and `alloc_pages` does that order by order.  So the lists of order `k`
make one offer (`Buddy.offer`) and the first one from the wanted order on is taken
(`allocPages_offer`): a block below 2GB of a small order goes before all larger ones
above.
-/

import Hvf.Mm.BuddyStart
import Hvf.Mm.BuddySearch

namespace Hvf

open NumberedBins StepRun

/-- The first block of list `k`, if there is such a list. -/
def listHead {n : ℕ} (orders : Bins n ℕ) (k : ℕ) : Option ℕ :=
  if h : k < n then (orders ⟨k, h⟩).head? else none

/-- What the lists of order `k` have for a `ZONE_NORMAL` request. -/
def Buddy.offer (b : Buddy) (k : ℕ) : Option ℕ :=
  (listHead b.ordersNormal k).or (listHead b.ordersLow k)

/-- No block of the order or a larger one is on `orders_normal`. -/
def Buddy.NormalEmpty (b : Buddy) (order : ℕ) : Prop :=
  ∀ k, order ≤ k → listHead b.ordersNormal k = none

/-- The smallest order from `order` on that has a free block has one at or above 2GB
before its others. -/
def Buddy.NormalOffered (b : Buddy) (order : ℕ) : Prop :=
  ∃ k, order ≤ k ∧ (∀ j, order ≤ j → j < k → b.offer j = none) ∧
    ∃ page, b.offer k = some page ∧ zoneLowEnd ≤ pageToAddr page

/-- Some order from `order` on has a block on `orders_normal`, and no smaller one has a
block on `orders_low`. -/
def Buddy.NormalBefore (b : Buddy) (order : ℕ) : Prop :=
  ∃ k, order ≤ k ∧ listHead b.ordersNormal k ≠ none ∧
    ∀ j, order ≤ j → j < k → listHead b.ordersLow j = none

/-- `ZONE_LOW` is the last resort: the page found is below 2GB only if no block of the
order or a larger one is on `orders_normal`. -/
def LastResort (order page : ℕ) (b : Buddy) : Prop :=
  pageToAddr page < zoneLowEnd → b.NormalEmpty order

variable {b b' : Buddy} {order gord page : ℕ}

/-! ### The first offer is taken -/

/-- What is taken is the list's head; where there is none, the lists stay. -/
theorem _doAllocPages_head {n : ℕ} {orders orders' : Bins n ℕ} {p : Option ℕ}
    (h : _doAllocPages order orders = some (p, orders')) :
    p = listHead orders order ∧ (p = none → orders' = orders) := by
  unfold _doAllocPages at h
  split at h
  · rename_i hlt
    rw [listHead, dif_pos hlt]
    cases hlist : orders ⟨order, hlt⟩ with
    | nil =>
      simp only [pop, hlist, Option.some.injEq, Prod.mk.injEq] at h
      exact ⟨h.1.symm, fun _ => h.2.symm⟩
    | cons a rest =>
      simp only [pop, hlist, Option.some.injEq, Prod.mk.injEq] at h
      exact ⟨h.1.symm, fun hnone => nomatch h.1.trans hnone⟩
  · cases h

/-- **A normal allocation takes what an order offers**: a normal block, or else a low one. -/
theorem _allocPages_offer {p : Option ℕ} (h : _allocPages gord .normal b = some (p, b')) :
    p = b.offer gord ∧ (p = none → b' = b) := by
  have hnormal : _allocPages gord .normal b = (_doAllocPages gord b.ordersNormal).bind fun r =>
      if r.1.isSome then some (r.1, { b with ordersNormal := r.2 })
      else (_doAllocPages gord b.ordersLow).bind fun r =>
        some (r.1, { b with ordersLow := r.2 }) := rfl
  rw [hnormal] at h
  obtain ⟨⟨p₁, normal⟩, htake, hrest⟩ := Option.bind_eq_some_iff.1 h
  obtain ⟨hhead, -⟩ := _doAllocPages_head htake
  dsimp only at hrest
  cases p₁ with
  | some page =>
    obtain ⟨rfl, -⟩ := Prod.mk.inj (Option.some.inj hrest)
    refine ⟨?_, fun hnone => nomatch hnone⟩
    rw [Buddy.offer, ← hhead]
    rfl
  | none =>
    obtain ⟨⟨p₂, low⟩, htake', hlast⟩ := Option.bind_eq_some_iff.1 hrest
    obtain ⟨hhead', hsame⟩ := _doAllocPages_head htake'
    obtain ⟨rfl, rfl⟩ := Prod.mk.inj (Option.some.inj hlast)
    refine ⟨?_, fun hnone => ?_⟩
    · rw [Buddy.offer, ← hhead, ← hhead']
      rfl
    · rw [hsame hnone]

/-- The search takes the offer of the first order that has one. -/
theorem allocLarger_offer {left : ℕ}
    (h : allocLarger order .normal left gord b = some (some page, b')) :
    ∃ k, gord ≤ k ∧ (∀ j, gord ≤ j → j < k → b.offer j = none) ∧ b.offer k = some page := by
  induction left generalizing gord b with
  | zero => cases h
  | succ left ih =>
    rw [allocLarger] at h
    obtain ⟨⟨p, b₁⟩, htake, hrest⟩ := Option.bind_eq_some_iff.1 h
    obtain ⟨hoffer, hsame⟩ := _allocPages_offer htake
    cases p with
    | some page' =>
      obtain ⟨b₂, -, hlast⟩ := Option.bind_eq_some_iff.1 hrest
      obtain ⟨hpage, -⟩ := Prod.mk.inj (Option.some.inj hlast)
      exact ⟨gord, le_rfl, fun j hge hlt => absurd hge (Nat.not_le.2 hlt),
        hoffer.symm.trans hpage⟩
    | none =>
      obtain rfl := hsame rfl
      obtain ⟨k, hge, hbefore, hfound⟩ := ih hrest
      refine ⟨k, Nat.le_of_succ_le hge, fun j hj hlt => ?_, hfound⟩
      rcases Nat.eq_or_lt_of_le hj with rfl | hj
      · exact hoffer.symm
      · exact hbefore j hj hlt

/-- **What `alloc_pages` takes** for a `ZONE_NORMAL` request: the offer of the smallest
order that has one. -/
theorem allocPages_offer (h : allocPages order .normal b = some (some page, b')) :
    ∃ k, order ≤ k ∧ (∀ j, order ≤ j → j < k → b.offer j = none) ∧ b.offer k = some page := by
  rw [allocPages_eq] at h
  obtain ⟨⟨p, b₁⟩, htake, hrest⟩ := Option.bind_eq_some_iff.1 h
  obtain ⟨hoffer, hsame⟩ := _allocPages_offer htake
  cases p with
  | some page' =>
    obtain ⟨hpage, -⟩ := Prod.mk.inj (Option.some.inj hrest)
    exact ⟨order, le_rfl, fun j hge hlt => absurd hge (Nat.not_le.2 hlt), hoffer.symm.trans hpage⟩
  | none =>
    obtain rfl := hsame rfl
    obtain ⟨k, hge, hbefore, hfound⟩ := allocLarger_offer hrest
    refine ⟨k, Nat.le_of_succ_le hge, fun j hj hlt => ?_, hfound⟩
    rcases Nat.eq_or_lt_of_le hj with rfl | hj
    · exact hoffer.symm
    · exact hbefore j hj hlt

/-! ### When that is the last resort -/

/-- **One call.** -/
theorem lastResort_iff (h : allocPages order .normal b = some (some page, b')) :
    LastResort order page b ↔ b.NormalEmpty order ∨ b.NormalOffered order := by
  obtain ⟨k, hge, hbefore, hfound⟩ := allocPages_offer h
  constructor
  · intro hlast
    rcases Nat.lt_or_ge (pageToAddr page) zoneLowEnd with hlow | hhigh
    · exact Or.inl (hlast hlow)
    · exact Or.inr ⟨k, hge, hbefore, page, hfound, hhigh⟩
  · rintro (hempty | ⟨j, hj, hbefore', page', hfound', hhigh⟩) hlow
    · exact hempty
    · -- both are the first offer
      obtain rfl : j = k := by
        rcases lt_trichotomy j k with hlt | heq | hlt
        · exact nomatch (hbefore j hj hlt).symm.trans hfound'
        · exact heq
        · exact nomatch (hbefore' k hge hlt).symm.trans hfound
      obtain rfl := Option.some.inj (hfound.symm.trans hfound')
      exact absurd hlow (Nat.not_lt.2 hhigh)

/-- The head of a list is in it. -/
theorem listHead_eq_some {n k : ℕ} {orders : Bins n ℕ} (h : listHead orders k = some page) :
    ∃ hk : k < n, page ∈ orders ⟨k, hk⟩ := by
  unfold listHead at h
  split at h
  · rename_i hk
    exact ⟨hk, List.mem_of_mem_head? h⟩
  · cases h

/-- What a normal list offers is from 2 GB on. -/
theorem Zoned.listHead_normal (hz : Zoned b) {k : ℕ} (h : listHead b.ordersNormal k = some page) :
    zoneLowEnd ≤ pageToAddr page := by
  obtain ⟨hk, hmem⟩ := listHead_eq_some h
  have hblock := (hz.normal (k, page) (by rw [mem_items]; exact ⟨⟨k, hk⟩, rfl, hmem⟩)).2
  rw [pageToAddr_eq, show zoneLowEnd = 4096 * 2 ^ 19 from rfl]
  omega

/-- What a low list offers is below 2 GB. -/
theorem Zoned.listHead_low (hz : Zoned b) {k : ℕ} (h : listHead b.ordersLow k = some page) :
    pageToAddr page < zoneLowEnd := by
  obtain ⟨hk, hmem⟩ := listHead_eq_some h
  have hblock := hz.low (k, page) (by rw [mem_items]; exact ⟨⟨k, hk⟩, rfl, hmem⟩)
  exact of_decide_eq_true hblock.isLowZone

/-- Where each list has blocks of its own zone, the first offer is at or above 2GB when it
is on `orders_normal`. -/
theorem Zoned.normalOffered_iff (hz : Zoned b) : b.NormalOffered order ↔ b.NormalBefore order := by
  constructor
  · rintro ⟨k, hge, hbefore, page, hfound, hhigh⟩
    refine ⟨k, hge, fun hnone => ?_, fun j hj hlt => ?_⟩
    · rw [Buddy.offer, hnone, Option.none_or] at hfound
      exact absurd (hz.listHead_low hfound) (Nat.not_lt.2 hhigh)
    · exact (Option.or_eq_none_iff.1 (hbefore j hj hlt)).2
  · rintro ⟨k, hge, hsome, hbefore⟩
    -- the smallest order with a block on `orders_normal`
    have hex : ∃ i, order ≤ i ∧ listHead b.ordersNormal i ≠ none := ⟨k, hge, hsome⟩
    classical
    obtain ⟨hi, hsome'⟩ := Nat.find_spec hex
    have hik : Nat.find hex ≤ k := Nat.find_min' hex ⟨hge, hsome⟩
    obtain ⟨page, hpage⟩ := Option.ne_none_iff_exists'.1 hsome'
    refine ⟨Nat.find hex, hi, fun j hj hlt => Option.or_eq_none_iff.2 ⟨?_, ?_⟩, page, ?_,
      hz.listHead_normal hpage⟩
    · by_contra hne
      exact Nat.find_min hex hlt ⟨hj, hne⟩
    · exact hbefore j hj (lt_of_lt_of_le hlt hik)
    · rw [Buddy.offer, hpage, Option.some_or]

/-- **When `ZONE_LOW` is the last resort**, in every state that calls of `alloc_pages` and
`free_pages` lead to: exactly when no block that is large enough is on `orders_normal`, or
the smallest order that has a block has one at or above 2GB first.  On a machine whose
lists are built right that is one on `orders_normal`, with no smaller one on
`orders_low`. -/
theorem allocPages_lastResort_iff : ∀ (memsize start : BitVec 64) (evs : List BuddyEvent)
    (s : BuddyState), Run BuddyStep (.init memsize start) evs s →
      ∀ (order page : ℕ) (b' : Buddy), allocPages order .normal s.buddy = some (some page, b') →
        (LastResort order page s.buddy ↔
          s.buddy.NormalEmpty order ∨ s.buddy.NormalOffered order) ∧
        (InitExact memsize start → (LastResort order page s.buddy ↔
          s.buddy.NormalEmpty order ∨ s.buddy.NormalBefore order)) := by
  intro memsize start evs s hrun order page b' halloc
  refine ⟨lastResort_iff halloc, fun hinit => ?_⟩
  have hinv : BuddyInv (initPages memsize start) s :=
    hrun.invariant (buddyInv_init hinit) fun _ _ _ h hstep => hstep.inv h
  rw [← hinv.zoned.normalOffered_iff]
  exact lastResort_iff halloc

/-- With 6GB of storage a block of order 20 comes from above 2GB, the only place that has
one. -/
theorem allocPages_lastResort_iff_6GB : ∃ page b',
    allocPages 20 .normal (initBuddyAlloc 0x180000000 0x1c00000) = some (some page, b') ∧
      LastResort 20 page (initBuddyAlloc 0x180000000 0x1c00000) := by
  have halloc : (allocPages 20 .normal (initBuddyAlloc 0x180000000 0x1c00000)).map (·.1) =
      some (some 0x80000) := by decide
  obtain ⟨⟨page, b'⟩, halloc, hpage⟩ := Option.map_eq_some_iff.1 halloc
  have hpage' : page = some 0x80000 := hpage
  rw [hpage'] at halloc
  have hexact : InitExact 0x180000000 0x1c00000 :=
    initExact_of_oneHighBit (oneHighBit_iff.2 (Or.inr ⟨1, by decide⟩)) (by decide) (by decide)
      (by decide) (by decide) (by decide)
  refine ⟨0x80000, b', halloc, ?_⟩
  exact ((allocPages_lastResort_iff 0x180000000 0x1c00000 [] _ Run.nil 20 0x80000 b' halloc).2
    hexact).2 (Or.inr ⟨20, le_rfl, by decide, fun j hge hlt => absurd hge (Nat.not_le.2 hlt)⟩)

/-- With 3GB of storage the first single page is cut from a block of order 12 below 2GB,
while a block of order 18 is free above. -/
theorem not_allocPages_lastResort : ¬ ∀ (memsize start : BitVec 64) (evs : List BuddyEvent)
    (s : BuddyState), Run BuddyStep (.init memsize start) evs s →
      ∀ (order page : ℕ) (b' : Buddy), allocPages order .normal s.buddy = some (some page, b') →
        LastResort order page s.buddy := by
  intro h
  have halloc : (allocPages 0 .normal (initBuddyAlloc 0xc0000000 0x1000000)).map (·.1) =
      some (some 0x1000) := by decide
  obtain ⟨⟨page, b'⟩, halloc, hpage⟩ := Option.map_eq_some_iff.1 halloc
  have hpage' : page = some 0x1000 := hpage
  rw [hpage'] at halloc
  have hempty := h 0xc0000000 0x1000000 [] _ Run.nil 0 0x1000 b' halloc (by decide) 18 (by decide)
  exact absurd hempty (by decide)

end Hvf
