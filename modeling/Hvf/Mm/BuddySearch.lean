/-
# Which lists `alloc_pages` looks at

There are 52 lists in `orders_normal` and 19 in `orders_low`, and one loop for both.
For `ZONE_LOW` it ends with the last list.  For `ZONE_NORMAL` each order that is
empty above 2GB is looked up below it, whether there is such a list or not: the call
stays inside the arrays exactly when it finds a block before that (`Found`).
-/

import Hvf.Mm.BuddyPartition

namespace Hvf

open NumberedBins StepRun

/-- The number of lists of a type. -/
def Zone.maxOrder : Zone → ℕ
  | .normal => zoneNormalMaxOrder
  | .low => zoneLowMaxOrder

/-- There is a free block of order `k` in a zone that is eligible for the type. -/
def Buddy.FreeAt (b : Buddy) (type : Zone) (k : ℕ) : Prop :=
  (type = .normal ∧ ∃ h : k < zoneNormalMaxOrder, b.ordersNormal ⟨k, h⟩ ≠ []) ∨
    ∃ h : k < zoneLowMaxOrder, b.ordersLow ⟨k, h⟩ ≠ []

/-- `alloc_pages` stays inside the two arrays, and returns `NULL` exactly when no
eligible block is large enough. -/
def AllocExact (order : ℕ) (type : Zone) (b : Buddy) : Prop :=
  ∃ page b', allocPages order type b = some (page, b') ∧
    (page = none ↔ ∀ k, order ≤ k → ¬ b.FreeAt type k)

/-- A block is found before the orders that `orders_low` does not have. -/
def Found (order : ℕ) (b : Buddy) : Prop :=
  ∃ k, order ≤ k ∧ k ≤ max order zoneLowMaxOrder ∧ b.FreeAt .normal k

variable {b : Buddy} {order gord : ℕ} {type : Zone}

/-- `ZONE_LOW` has the orders below 19. -/
theorem zoneLowMaxOrder_eq : zoneLowMaxOrder = 19 := rfl

/-- Within the orders, the list's first block is taken, or nothing if it is empty. -/
theorem _doAllocPages_of_lt {n : ℕ} (orders : Bins n ℕ) (h : order < n) :
    (orders ⟨order, h⟩ = [] ∧ _doAllocPages order orders = some (none, orders)) ∨
      (orders ⟨order, h⟩ ≠ [] ∧
        ∃ page orders', _doAllocPages order orders = some (some page, orders')) := by
  rw [_doAllocPages, dif_pos h, pop]
  cases orders ⟨order, h⟩ with
  | nil => exact Or.inl ⟨rfl, rfl⟩
  | cons page rest => exact Or.inr ⟨List.cons_ne_nil _ _, page, _, rfl⟩

/-- Beyond the orders the code reads behind its array. -/
theorem _doAllocPages_of_le {n : ℕ} {orders : Bins n ℕ} (h : n ≤ order) :
    _doAllocPages order orders = none := dif_neg (Nat.not_lt.2 h)

/-- Below 2GB a block is taken, there is none, or there is no such list. -/
theorem _allocPages_low (b : Buddy) (gord : ℕ) :
    ((∃ h : gord < zoneLowMaxOrder, b.ordersLow ⟨gord, h⟩ ≠ []) ∧
        ∃ page b', _allocPages gord .low b = some (some page, b')) ∨
      (¬ (∃ h : gord < zoneLowMaxOrder, b.ordersLow ⟨gord, h⟩ ≠ []) ∧
        (gord < zoneLowMaxOrder ∧ _allocPages gord .low b = some (none, b) ∨
          zoneLowMaxOrder ≤ gord ∧ _allocPages gord .low b = none)) := by
  have hlow : _allocPages gord .low b = (_doAllocPages gord b.ordersLow).bind fun r =>
      some (r.1, { b with ordersLow := r.2 }) := rfl
  rw [hlow]
  rcases lt_or_ge gord zoneLowMaxOrder with hlt | hge
  · rcases _doAllocPages_of_lt b.ordersLow hlt with
      ⟨hnil, htake⟩ | ⟨hne, page, o, htake⟩
    · rw [htake]
      exact Or.inr ⟨fun ⟨_, hne⟩ => hne hnil, Or.inl ⟨hlt, rfl⟩⟩
    · rw [htake]
      exact Or.inl ⟨⟨hlt, hne⟩, page, _, rfl⟩
  · rw [_doAllocPages_of_le hge]
    exact Or.inr ⟨fun ⟨hlt, _⟩ => absurd hlt (Nat.not_lt.2 hge), Or.inr ⟨hge, rfl⟩⟩

/-- **One order.**  A block is taken, or there is none, or the order is looked up
behind the lists of `orders_low`. -/
theorem _allocPages_search (h : gord < type.maxOrder) :
    (b.FreeAt type gord ∧ ∃ page b', _allocPages gord type b = some (some page, b')) ∨
      (¬ b.FreeAt type gord ∧ (gord < zoneLowMaxOrder ∧ _allocPages gord type b = some (none, b) ∨
        zoneLowMaxOrder ≤ gord ∧ _allocPages gord type b = none)) := by
  cases type with
  | low =>
    rcases _allocPages_low b gord with ⟨hfree, htake⟩ | ⟨hfree, hrest⟩
    · exact Or.inl ⟨Or.inr hfree, htake⟩
    · exact Or.inr ⟨fun hfree' => hfree'.elim (fun hnormal => nomatch hnormal.1) hfree, hrest⟩
  | normal =>
    have hnormal : _allocPages gord .normal b = (_doAllocPages gord b.ordersNormal).bind fun r =>
        if r.1.isSome then some (r.1, { b with ordersNormal := r.2 })
        else _allocPages gord .low b := rfl
    rw [hnormal]
    rcases _doAllocPages_of_lt b.ordersNormal h with
      ⟨hnil, htake⟩ | ⟨hne, page, o, htake⟩
    · rw [htake]
      rcases _allocPages_low b gord with ⟨hfree, htake'⟩ | ⟨hfree, hrest⟩
      · exact Or.inl ⟨Or.inr hfree, htake'⟩
      · exact Or.inr ⟨fun hfree' => hfree'.elim (fun hnormal => hnormal.2.2 hnil) hfree, hrest⟩
    · rw [htake]
      exact Or.inl ⟨Or.inl ⟨rfl, h, hne⟩, page, _, rfl⟩

/-- A block of order 19 at most is split inside the arrays. -/
theorem _chipPages_isSome {actual : ℕ} (base wanted : ℕ) (b : Buddy)
    (h : actual ≤ zoneLowMaxOrder) :
    ∃ b', _chipPages base actual wanted b = some b' := by
  induction actual generalizing b with
  | zero => exact ⟨b, rfl⟩
  | succ actual ih =>
    rw [_chipPages]
    split
    · have hlt : actual < zoneLowMaxOrder := h
      have hadd : ∀ zoneOf p, ∃ b', listAdd zoneOf p actual b = some b' := by
        intro zoneOf p
        rw [listAdd]
        split
        · exact ⟨_, rfl⟩
        · have hlt' : actual < zoneNormalMaxOrder := lt_trans hlt (by decide)
          rw [dif_pos hlt']
          exact ⟨_, rfl⟩
      obtain ⟨b₁, hadd⟩ := hadd base (base + (intBit actual).toInt).toNat
      obtain ⟨b', hchip⟩ := ih b₁ (Nat.le_of_lt hlt)
      exact ⟨b', Option.bind_eq_some_iff.2 ⟨b₁, hadd, hchip⟩⟩
    · exact ⟨b, rfl⟩

/-- **The loop.**  Up to order 19 it takes the first block there is; if there is none it
ends for `ZONE_LOW`, and leaves the arrays for `ZONE_NORMAL`. -/
theorem allocLarger_search {left : ℕ} (hleft : gord + left = type.maxOrder)
    (hgord : gord ≤ zoneLowMaxOrder) :
    ((∃ k, gord ≤ k ∧ k ≤ zoneLowMaxOrder ∧ b.FreeAt type k) ∧
        ∃ page b', allocLarger order type left gord b = some (some page, b')) ∨
      (¬ (∃ k, gord ≤ k ∧ k ≤ zoneLowMaxOrder ∧ b.FreeAt type k) ∧
        allocLarger order type left gord b = if type = .low then some (none, b) else none) := by
  induction left generalizing gord with
  | zero =>
    cases type with
    | low =>
      refine Or.inr ⟨fun hsome => ?_, rfl⟩
      obtain ⟨k, hge, -, hfree⟩ := hsome
      rcases hfree with ⟨hnormal, _⟩ | ⟨hlt, _⟩
      · cases hnormal
      · have hend : gord = zoneLowMaxOrder := hleft
        omega
    | normal =>
      have hend : gord = zoneNormalMaxOrder := hleft
      rw [hend] at hgord
      exact absurd hgord (by decide)
  | succ left ih =>
    have hlt : gord < type.maxOrder := by omega
    rw [allocLarger]
    rcases _allocPages_search (b := b) hlt with
      ⟨hfree, page, b₁, htake⟩ | ⟨hfree, ⟨hlow, hnone⟩ | ⟨hhigh, hout⟩⟩
    · obtain ⟨b', hchip⟩ := _chipPages_isSome page order b₁ hgord
      refine Or.inl ⟨⟨gord, le_rfl, hgord, hfree⟩, page, b', ?_⟩
      exact Option.bind_eq_some_iff.2
        ⟨(some page, b₁), htake, Option.bind_eq_some_iff.2 ⟨b', hchip, rfl⟩⟩
    · -- the order has no block, and the loop goes on
      have hsame : (∃ k, gord ≤ k ∧ k ≤ zoneLowMaxOrder ∧ b.FreeAt type k) ↔
          ∃ k, gord + 1 ≤ k ∧ k ≤ zoneLowMaxOrder ∧ b.FreeAt type k := by
        constructor
        · rintro ⟨k, hge, hle, hfree'⟩
          have hne : k ≠ gord := fun heq => hfree (heq ▸ hfree')
          exact ⟨k, by omega, hle, hfree'⟩
        · rintro ⟨k, hge, hle, hfree'⟩
          exact ⟨k, by omega, hle, hfree'⟩
      rw [hnone, hsame]
      exact ih (by omega) hlow
    · have hgord' : gord = zoneLowMaxOrder := le_antisymm hgord hhigh
      refine Or.inr ⟨fun hsome => hfree ?_, ?_⟩
      · obtain ⟨k, hge, hle, hfree'⟩ := hsome
        rwa [show gord = k by omega]
      · cases type with
        | low => exact absurd hlt (by rw [hgord']; exact lt_irrefl _)
        | normal =>
          rw [hout]
          rfl

/-- `alloc_pages` behind the first order. -/
theorem allocPages_eq (order : ℕ) (type : Zone) (b : Buddy) : allocPages order type b =
    (_allocPages order type b).bind fun r => if r.1.isSome then some r
      else allocLarger order type (type.maxOrder - (order + 1)) (order + 1) r.2 := by
  cases type with
  | low => rfl
  | normal => rfl

/-- A free low block is of an order below 19. -/
theorem Buddy.FreeAt.lt_of_low (h : b.FreeAt .low gord) : gord < zoneLowMaxOrder := by
  rcases h with ⟨hnormal, _⟩ | ⟨hlt, _⟩
  · cases hnormal
  · exact hlt

/-- **One call.** -/
theorem allocExact_iff (b : Buddy) (h : order < type.maxOrder) :
    AllocExact order type b ↔ (type = .normal → Found order b) := by
  rw [AllocExact, allocPages_eq]
  rcases _allocPages_search (b := b) h with
    ⟨hfree, page, b₁, htake⟩ | ⟨hfree, ⟨hlow, hnone⟩ | ⟨hhigh, hout⟩⟩
  · rw [htake]
    refine ⟨fun _ htype => ⟨order, le_rfl, le_max_left .., htype ▸ hfree⟩, fun _ => ?_⟩
    exact ⟨some page, b₁, rfl, fun hpage => (nomatch hpage),
      fun hall => absurd hfree (hall order le_rfl)⟩
  · rw [hnone]
    dsimp only [Option.bind_some, Option.isSome_none, Bool.false_eq_true, if_false]
    have hmax : max order zoneLowMaxOrder = zoneLowMaxOrder := max_eq_right (Nat.le_of_lt hlow)
    have hleft : order + 1 + (type.maxOrder - (order + 1)) = type.maxOrder := by omega
    rcases allocLarger_search (b := b) hleft hlow with
      ⟨⟨k, hge, hle, hfree'⟩, page, b', hlarger⟩ | ⟨hnot, hlarger⟩
    · refine ⟨fun _ htype => ?_, fun _ => ?_⟩
      · exact ⟨k, Nat.le_of_succ_le hge, hmax.symm ▸ hle, htype ▸ hfree'⟩
      · exact ⟨some page, b', hlarger, fun hpage => (nomatch hpage),
          fun hall => absurd hfree' (hall k (Nat.le_of_succ_le hge))⟩
    · have hempty : ∀ k, order ≤ k → k ≤ zoneLowMaxOrder → ¬ b.FreeAt type k := by
        intro k hge hle hfree'
        rcases Nat.eq_or_lt_of_le hge with rfl | hlt
        · exact hfree hfree'
        · exact hnot ⟨k, hlt, hle, hfree'⟩
      rw [hlarger]
      cases type with
      | low =>
        refine ⟨fun _ htype => (nomatch htype), fun _ => ⟨none, b, rfl, fun _ k hge hfree' => ?_,
          fun _ => rfl⟩⟩
        exact hempty k hge (Nat.le_of_lt hfree'.lt_of_low) hfree'
      | normal =>
        refine ⟨fun ⟨_, _, hpage, _⟩ => (nomatch hpage), fun hfound => ?_⟩
        obtain ⟨k, hge, hle, hfree'⟩ := hfound rfl
        exact absurd hfree' (hempty k hge (hmax ▸ hle))
  · rw [hout]
    cases type with
    | low => exact absurd h (Nat.not_lt.2 hhigh)
    | normal =>
      refine ⟨fun ⟨_, _, hpage, _⟩ => (nomatch hpage), fun hfound => ?_⟩
      obtain ⟨k, hge, hle, hfree'⟩ := hfound rfl
      rw [max_eq_left hhigh] at hle
      exact absurd hfree' (le_antisymm hge hle ▸ hfree)

/-- **`alloc_pages` searches the lists that exist exactly when** the type is `ZONE_LOW`
or a block is found up to order 19, or of the order asked for if that is larger: in
every state that calls of `alloc_pages` and `free_pages` lead to. -/
theorem allocPages_exact_iff : ∀ (memsize start : BitVec 64) (evs : List BuddyEvent)
    (s : BuddyState), Run BuddyStep (.init memsize start) evs s →
      ∀ (order : ℕ) (type : Zone), order < type.maxOrder →
        (AllocExact order type s.buddy ↔ (type = .normal → Found order s.buddy)) :=
  fun _ _ _ s _ _ _ horder => allocExact_iff s.buddy horder

/-- A page of 64MB of storage is cut from the block of order 6, as no smaller one is free.
-/
theorem allocPages_exact_iff_64MB : AllocExact 0 .normal (initBuddyAlloc 0x4000000 0x440000) :=
  (allocPages_exact_iff 0x4000000 0x440000 [] _ Run.nil 0 .normal (by decide)).2
    fun _ => ⟨6, by decide, by decide, Or.inr ⟨by decide, by decide⟩⟩

/-- With 64MB of storage there is no block of 64MB, and list 19 of 19 is looked up:
`ZONE_LOW` has the orders 0 to 18 only. -/
theorem not_allocPages_exact : ¬ ∀ (memsize start : BitVec 64) (evs : List BuddyEvent)
    (s : BuddyState), Run BuddyStep (.init memsize start) evs s →
      ∀ (order : ℕ) (type : Zone), order < type.maxOrder → AllocExact order type s.buddy := by
  intro h
  obtain ⟨page, b', hcall, -⟩ := h 0x4000000 0x440000 [] _ Run.nil 14 .normal (by decide)
  have hout : (allocPages 14 .normal (initBuddyAlloc 0x4000000 0x440000)).isNone = true := by decide
  rw [show initBuddyAlloc 0x4000000 0x440000 = (BuddyState.init 0x4000000 0x440000).buddy from rfl,
    hcall] at hout
  cases hout

end Hvf
