/-
# A page table translates what was inserted

After any sequence of `dat_insert_page` calls the architected walk gives, for
every page below 2GB, the frame of the last call for that page, and an invalid
entry where there was no call; a call changes the translation of no other page.

`DatInv` is the shape of the tables: every segment-table entry is either the
word of ones that `alloc_table` stored or points to a page table of its own.
Allocated tables never overlap, so a store into one entry is seen through no
other.  Looking up a table, with the allocation this may need, changes no
translation (`findSegmentTable_spec`, `findPageTable_spec`); the store of the
page-table entry changes one (`datInsertPage_spec`).
-/

import Hvf.Mm.Dat

namespace Hvf

open BitField StepRun

/-! ### Entries -/

/-- A new segment table entry has the page table's origin. -/
theorem steOrigin_newSte (ptr : ℕ) (w : BitVec 64) :
    steOrigin.get (newSte ptr w) = addrToSteOrigin ptr := by
  simp (disch := decide) only [newSte, Field.get_set_of_disjoint, Field.get_set]

/-- A new segment table entry is valid. -/
theorem steI_newSte (ptr : ℕ) (w : BitVec 64) : steI.get (newSte ptr w) = 0 := by
  simp (disch := decide) only [newSte, Field.get_set_of_disjoint, Field.get_set]

/-- A new page table entry has the frame of the page mapped. -/
theorem ptePfra_newPte (phy w : BitVec 64) : ptePfra.get (newPte phy w) = pfra phy := by
  simp (disch := decide) only [newPte, Field.get_set_of_disjoint, Field.get_set]

/-- A new page table entry is valid. -/
theorem pteI_newPte (phy w : BitVec 64) : pteI.get (newPte phy w) = 0 := by
  simp (disch := decide) only [newPte, Field.get_set_of_disjoint, Field.get_set]

/-- **The shift round trip.**  A page address survives `>> 11`, the 53-bit field
and `<< 11`. -/
theorem steOriginToAddr_addrToSteOrigin {ptr : ℕ} (halign : ptr % 4096 = 0) (hlt : ptr < 2 ^ 64) :
    steOriginToAddr (addrToSteOrigin ptr) = ptr := by
  rw [steOriginToAddr, addrToSteOrigin, BitVec.toNat_ofNat, Nat.shiftRight_eq_div_pow,
    Nat.shiftLeft_eq]
  omega

/-! ### Indices -/

/-- The segment index of an address, as a quotient. -/
theorem datSx_eq (v : BitVec 64) : datSx v = v.toNat / 2 ^ 20 % 2 ^ 11 := by
  rw [datSx, BitVec.toNat_and, BitVec.toNat_ushiftRight, Nat.shiftRight_eq_div_pow]
  exact Nat.and_two_pow_sub_one_eq_mod _ 11

/-- The page index of an address, as a quotient. -/
theorem datPx_eq (v : BitVec 64) : datPx v = v.toNat / 2 ^ 12 % 2 ^ 8 := by
  rw [datPx, BitVec.toNat_and, BitVec.toNat_ushiftRight, Nat.shiftRight_eq_div_pow]
  exact Nat.and_two_pow_sub_one_eq_mod _ 8

/-- There are 2048 segments. -/
theorem datSx_lt (v : BitVec 64) : datSx v < 2048 := by
  rw [datSx_eq]
  exact Nat.mod_lt _ (by norm_num)

/-- A segment has 256 pages. -/
theorem datPx_lt (v : BitVec 64) : datPx v < 256 := by
  rw [datPx_eq]
  exact Nat.mod_lt _ (by norm_num)

/-- Below 2GB the two indices determine the page. -/
theorem virtPage_eq_iff {v w : BitVec 64} (hv : v.toNat < 2 ^ 31) (hw : w.toNat < 2 ^ 31) :
    virtPage v = virtPage w ↔ datSx v = datSx w ∧ datPx v = datPx w := by
  rw [← BitVec.toNat_inj, virtPage, virtPage, BitVec.toNat_ushiftRight, BitVec.toNat_ushiftRight,
    Nat.shiftRight_eq_div_pow, Nat.shiftRight_eq_div_pow, datSx_eq, datSx_eq, datPx_eq, datPx_eq]
  simp only [pageShift]
  omega

/-! ### The shape of the tables -/

/-- A valid segment-table entry for the page table at `pt`. -/
def PointsTo (ste : BitVec 64) (pt : ℕ) : Prop :=
  steI.get ste = 0 ∧ steOriginToAddr (steOrigin.get ste) = pt

/-- The segment-table entry with index `sx`. -/
def Dat.ste (s : Dat) (sx : ℕ) : BitVec 64 := s.mem (s.segmentTable + 8 * sx)

/-- **The invariant of the tables**: no region table, fresh blocks, and a segment table whose
entries are the marker or lead to page tables of their own. -/
structure DatInv (s : Dat) : Prop where
  region : s.regionTable = 0
  fresh : Fresh s.allocs
  segment : s.segmentTable ≠ 0 → (2, s.segmentTable) ∈ s.allocs
  entry : s.segmentTable ≠ 0 → ∀ sx < 2048,
    s.ste sx = BitVec.allOnes 64 ∨ ∃ pt, (0, pt) ∈ s.allocs ∧ PointsTo (s.ste sx) pt
  separate : s.segmentTable ≠ 0 → ∀ sx < 2048, ∀ sx' < 2048, sx ≠ sx' →
    ∀ pt, PointsTo (s.ste sx) pt → ¬ PointsTo (s.ste sx') pt

/-- **No valid origin is mistaken for the empty marker:** a page address is even
after `>> 11`, the marker is odd. -/
theorem PointsTo.ne_marker {ste : BitVec 64} {pt : ℕ} (h : PointsTo ste pt)
    (halign : pt % 4096 = 0) : steOrigin.get ste ≠ 0x1fffffffffffff := by
  intro hmark
  have haddr := h.2
  rw [hmark, steOriginToAddr, Nat.shiftLeft_eq] at haddr
  have hones : (0x1fffffffffffff : BitVec 53).toNat = 2 ^ 53 - 1 := by decide
  rw [hones] at haddr
  omega

/-- The marker leads to no page table. -/
theorem not_pointsTo_allOnes (pt : ℕ) : ¬ PointsTo (BitVec.allOnes 64) pt := by
  intro h
  have := h.1
  rw [Field.get_allOnes] at this
  exact absurd this (by decide)

/-- Fresh blocks stay so without the last one. -/
theorem Fresh.tail {a : ℕ × ℕ} {allocs : List (ℕ × ℕ)} (h : Fresh (a :: allocs)) :
    Fresh allocs :=
  ⟨(List.pairwise_cons.1 h.disjoint).2, fun b hb => h.page b (List.mem_cons_of_mem _ hb)⟩

/-- Two different tables do not overlap. -/
theorem Fresh.apart {allocs : List (ℕ × ℕ)} (h : Fresh allocs) {a b : ℕ × ℕ} (ha : a ∈ allocs)
    (hb : b ∈ allocs) (hne : a ≠ b) :
    a.2 + tableSize a.1 ≤ b.2 ∨ b.2 + tableSize b.1 ≤ a.2 := by
  have : Std.Symm fun a b : ℕ × ℕ => a.2 + tableSize a.1 ≤ b.2 ∨ b.2 + tableSize b.1 ≤ a.2 :=
    ⟨fun _ _ h => h.symm⟩
  exact h.disjoint.forall ha hb hne

/-- A page table takes a page. -/
theorem tableSize_zero : tableSize 0 = 4096 := rfl

/-- A segment table takes four pages. -/
theorem tableSize_two : tableSize 2 = 16384 := rfl

/-- A page table and the segment table have no address in common. -/
theorem Fresh.segment_page {allocs : List (ℕ × ℕ)} (h : Fresh allocs) {st pt : ℕ}
    (hst : (2, st) ∈ allocs) (hpt : (0, pt) ∈ allocs) : st + 16384 ≤ pt ∨ pt + 4096 ≤ st := by
  have := h.apart hst hpt (by simp)
  rwa [tableSize_zero, tableSize_two] at this

/-- Two different page tables have no address in common. -/
theorem Fresh.page_page {allocs : List (ℕ × ℕ)} (h : Fresh allocs) {pt pt' : ℕ}
    (hpt : (0, pt) ∈ allocs) (hpt' : (0, pt') ∈ allocs) (hne : pt ≠ pt') :
    pt + 4096 ≤ pt' ∨ pt' + 4096 ≤ pt := by
  have := h.apart hpt hpt' (by simpa using hne)
  rwa [tableSize_zero] at this

/-- What `alloc_table` has done: the table is filled with ones, storage outside
it is untouched. -/
theorem allocTable_cases {order ptr : ℕ} {s s' : Dat} (h : allocTable order s = some (ptr, s')) :
    s'.allocs = (order, ptr) :: s.allocs ∧ s'.segmentTable = s.segmentTable ∧
      s'.regionTable = s.regionTable ∧
      (∀ a, ptr ≤ a → a < ptr + tableSize order → s'.mem a = BitVec.allOnes 64) ∧
      (∀ a, a < ptr ∨ ptr + tableSize order ≤ a → s'.mem a = s.mem a) := by
  unfold allocTable at h
  split at h
  · obtain ⟨rfl, rfl⟩ := Prod.mk.inj (Option.some.inj h)
    refine ⟨rfl, rfl, rfl, fun a hle hlt => if_pos ⟨hle, hlt⟩, fun a ha => if_neg ?_⟩
    omega
  · simp at h

/-- Two states that agree on the entries the walk for `v` reads. -/
theorem walk_congr {s s' : Dat} {v : BitVec 64} (hst : s'.segmentTable = s.segmentTable)
    (hste : s'.ste (datSx v) = s.ste (datSx v))
    (hpte : steI.get (s.ste (datSx v)) ≠ 1 →
      s'.mem (steOriginToAddr (steOrigin.get (s.ste (datSx v))) + 8 * datPx v)
        = s.mem (steOriginToAddr (steOrigin.get (s.ste (datSx v))) + 8 * datPx v)) :
    s'.walk v = s.walk v := by
  unfold Dat.ste at hste hpte
  simp only [Dat.walk, hst] at hste ⊢
  rw [hste]
  by_cases hnull : s.segmentTable = 0
  · rw [if_pos hnull, if_pos hnull]
  · by_cases hi : steI.get (s.mem (s.segmentTable + 8 * datSx v)) = 1
    · rw [if_neg hnull, if_neg hnull, if_pos hi, if_pos hi]
    · rw [hpte hi]

/-- Without a region table, the segment table found is the one pointed to. -/
theorem findSegmentTable_eq {virt : BitVec 64} {s s' : Dat} {segment : ℕ}
    (h : findSegmentTable virt s = some (segment, s')) (hregion : s.regionTable = 0) :
    segment = s'.segmentTable := by
  rw [findSegmentTable, if_pos hregion] at h
  split at h
  · obtain ⟨⟨ptr, s₁⟩, -, hres⟩ := Option.bind_eq_some_iff.1 h
    obtain ⟨rfl, rfl⟩ := Prod.mk.inj (Option.some.inj hres)
    rfl
  · obtain ⟨rfl, rfl⟩ := Prod.mk.inj (Option.some.inj h)
    rfl

/-- **Looking up the segment table** allocates it the first time and changes no
translation. -/
theorem findSegmentTable_spec {virt : BitVec 64} {s s' : Dat} {segment : ℕ}
    (h : findSegmentTable virt s = some (segment, s')) (hinv : DatInv s)
    (hfresh : Fresh s'.allocs) :
    DatInv s' ∧ s'.segmentTable ≠ 0 ∧ ∀ v, s'.walk v = s.walk v := by
  rw [findSegmentTable, if_pos hinv.region] at h
  split at h
  · rename_i hnull
    obtain ⟨⟨ptr, s₁⟩, halloc, hres⟩ := Option.bind_eq_some_iff.1 h
    obtain ⟨rfl, rfl⟩ := Prod.mk.inj (Option.some.inj hres)
    obtain ⟨hallocs, -, hregion, hones, -⟩ := allocTable_cases halloc
    have hptr : (2, ptr) ∈ s₁.allocs := hallocs ▸ List.mem_cons_self ..
    have hword : ∀ sx < 2048, s₁.mem (ptr + 8 * sx) = BitVec.allOnes 64 := fun sx hsx =>
      hones _ (Nat.le_add_right ..) (by rw [tableSize_two]; omega)
    refine ⟨⟨hregion.trans hinv.region, hfresh, fun _ => hptr, fun _ sx hsx => .inl (hword sx hsx),
      fun _ sx hsx sx' _ _ pt hpt => ?_⟩, (hfresh.page _ hptr).1.ne', fun v => ?_⟩
    · rw [Dat.ste, hword sx hsx] at hpt
      exact absurd hpt (not_pointsTo_allOnes pt)
    · -- the new table has invalid entries only, and without a table nothing was translated
      have hnew : steI.get (s₁.mem (ptr + 8 * datSx v)) = 1 := by
        rw [hword _ (datSx_lt v), Field.get_allOnes]
        decide
      simp only [Dat.walk, hnull, (hfresh.page _ hptr).1.ne', if_true, if_false, hnew]
  · rename_i hset
    obtain ⟨rfl, rfl⟩ := Prod.mk.inj (Option.some.inj h)
    exact ⟨hinv, hset, fun _ => rfl⟩

/-- `s'` is `s` with a page table at `ptr` put into the empty entry `sx` of the
segment table. -/
structure NewPageTable (s s' : Dat) (sx ptr : ℕ) : Prop where
  segment : s'.segmentTable = s.segmentTable
  region : s'.regionTable = s.regionTable
  allocs : s'.allocs = (0, ptr) :: s.allocs
  empty : steOrigin.get (s.ste sx) = 0x1fffffffffffff
  origin : steOrigin.get (s'.ste sx) = addrToSteOrigin ptr
  valid : steI.get (s'.ste sx) = 0
  ones : ∀ a ≠ s.segmentTable + 8 * sx, ptr ≤ a → a < ptr + 4096 → s'.mem a = BitVec.allOnes 64
  keep : ∀ a ≠ s.segmentTable + 8 * sx, a < ptr ∨ ptr + 4096 ≤ a → s'.mem a = s.mem a

/-- What `findPageTable` does: nothing, or a new table and the store of its
address. -/
theorem findPageTable_cases {sx page : ℕ} {s s' : Dat}
    (h : findPageTable (s.segmentTable + 8 * sx) s = some (page, s')) :
    (steOrigin.get (s.ste sx) ≠ 0x1fffffffffffff ∧ s' = s ∧
        page = steOriginToAddr (steOrigin.get (s.ste sx))) ∨
      ∃ ptr, page = steOriginToAddr (addrToSteOrigin ptr) ∧ NewPageTable s s' sx ptr := by
  unfold findPageTable at h
  split at h
  · rename_i hmark
    obtain ⟨⟨ptr, s₁⟩, halloc, hres⟩ := Option.bind_eq_some_iff.1 h
    obtain ⟨rfl, rfl⟩ := Prod.mk.inj (Option.some.inj hres)
    obtain ⟨hallocs, hst, hregion, hones, hkeep⟩ := allocTable_cases halloc
    rw [tableSize_zero] at hones hkeep
    refine .inr ⟨ptr, ?_, hst, hregion, hallocs, hmark, ?_, ?_, fun a ha hle hlt => ?_,
      fun a ha hout => ?_⟩
    · simp only [Function.update_self, steOrigin_newSte]
    · simp only [Dat.ste, hst, Function.update_self, steOrigin_newSte]
    · simp only [Dat.ste, hst, Function.update_self, steI_newSte]
    · exact (Function.update_of_ne ha ..).trans (hones a hle hlt)
    · exact (Function.update_of_ne ha ..).trans (hkeep a hout)
  · rename_i hmark
    obtain ⟨rfl, rfl⟩ := Prod.mk.inj (Option.some.inj h)
    exact .inl ⟨hmark, rfl, rfl⟩

section NewPageTable

variable {s s' : Dat} {sx ptr : ℕ}

/-- A new page table takes no block away. -/
theorem NewPageTable.mem_allocs (hnew : NewPageTable s s' sx ptr) {a : ℕ × ℕ}
    (ha : a ∈ s.allocs) : a ∈ s'.allocs :=
  hnew.allocs ▸ List.mem_cons_of_mem _ ha

/-- The new page table is one of the blocks. -/
theorem NewPageTable.ptr_mem (hnew : NewPageTable s s' sx ptr) : (0, ptr) ∈ s'.allocs :=
  hnew.allocs ▸ List.mem_cons_self ..

/-- Its address survives the entry that holds it. -/
theorem NewPageTable.roundTrip (hnew : NewPageTable s s' sx ptr) (hfresh : Fresh s'.allocs) :
    steOriginToAddr (addrToSteOrigin ptr) = ptr := by
  obtain ⟨-, halign, hfits⟩ := hfresh.page _ hnew.ptr_mem
  rw [tableSize_zero] at hfits
  exact steOriginToAddr_addrToSteOrigin halign (Nat.lt_of_lt_of_le (Nat.lt_add_of_pos_right
    (by norm_num)) hfits)

/-- The new table is apart from the segment table. -/
theorem NewPageTable.apart_segment (hnew : NewPageTable s s' sx ptr) (hinv : DatInv s)
    (hnull : s.segmentTable ≠ 0) (hfresh : Fresh s'.allocs) :
    s.segmentTable + 16384 ≤ ptr ∨ ptr + 4096 ≤ s.segmentTable :=
  hfresh.segment_page (hnew.mem_allocs (hinv.segment hnull)) hnew.ptr_mem

/-- The new table is apart from every older page table. -/
theorem NewPageTable.apart_page (hnew : NewPageTable s s' sx ptr) (hfresh : Fresh s'.allocs)
    {pt : ℕ} (hpt : (0, pt) ∈ s.allocs) : pt + 4096 ≤ ptr ∨ ptr + 4096 ≤ pt := by
  have hdisj := (List.pairwise_cons.1 (hnew.allocs ▸ hfresh.disjoint)).1 _ hpt
  rw [tableSize_zero] at hdisj
  exact hdisj.symm

/-- **The segment's entry leads to the new page table.** -/
theorem NewPageTable.pointsTo (hnew : NewPageTable s s' sx ptr) (hfresh : Fresh s'.allocs) :
    PointsTo (s'.ste sx) ptr :=
  ⟨hnew.valid, by rw [hnew.origin, hnew.roundTrip hfresh]⟩

/-- The other segment-table entries are as they were. -/
theorem NewPageTable.ste_of_ne (hnew : NewPageTable s s' sx ptr) (hinv : DatInv s)
    (hnull : s.segmentTable ≠ 0) (hfresh : Fresh s'.allocs) {sx' : ℕ} (hsx' : sx' < 2048)
    (hne : sx' ≠ sx) : s'.ste sx' = s.ste sx' := by
  have := hnew.apart_segment hinv hnull hfresh
  rw [Dat.ste, Dat.ste, hnew.segment]
  exact hnew.keep _ (by omega) (by omega)

/-- No other entry points to the new table. -/
theorem NewPageTable.not_pointsTo (hnew : NewPageTable s s' sx ptr) (hinv : DatInv s)
    (hnull : s.segmentTable ≠ 0) (hfresh : Fresh s'.allocs) {sx' : ℕ} (hsx' : sx' < 2048)
    (hne : sx' ≠ sx) : ¬ PointsTo (s'.ste sx') ptr := by
  intro hp
  rw [hnew.ste_of_ne hinv hnull hfresh hsx' hne] at hp
  rcases hinv.entry hnull sx' hsx' with hempty | ⟨pt, hpt, hp'⟩
  · exact not_pointsTo_allOnes _ (hempty ▸ hp)
  · have := hnew.apart_page hfresh hpt
    have := hp.2.symm.trans hp'.2
    omega

/-- A new page table keeps the invariant of the tables. -/
theorem NewPageTable.inv (hnew : NewPageTable s s' sx ptr) (hinv : DatInv s)
    (hnull : s.segmentTable ≠ 0) (hfresh : Fresh s'.allocs) : DatInv s' := by
  have hpoints := hnew.pointsTo hfresh
  refine ⟨hnew.region.trans hinv.region, hfresh,
    fun _ => hnew.segment ▸ hnew.mem_allocs (hinv.segment hnull), fun _ sx' hsx' => ?_,
    fun _ sx₁ h₁ sx₂ h₂ hne pt hp₁ hp₂ => ?_⟩
  · by_cases hsame : sx' = sx
    · exact .inr ⟨ptr, hnew.ptr_mem, hsame ▸ hpoints⟩
    · rw [hnew.ste_of_ne hinv hnull hfresh hsx' hsame]
      exact (hinv.entry hnull sx' hsx').imp_right fun ⟨pt, hpt, hp⟩ =>
        ⟨pt, hnew.mem_allocs hpt, hp⟩
  · by_cases hsame₁ : sx₁ = sx
    · subst hsame₁
      exact hnew.not_pointsTo hinv hnull hfresh h₂ (Ne.symm hne)
        (hp₁.2.symm.trans hpoints.2 ▸ hp₂)
    · by_cases hsame₂ : sx₂ = sx
      · subst hsame₂
        exact hnew.not_pointsTo hinv hnull hfresh h₁ hne (hp₂.2.symm.trans hpoints.2 ▸ hp₁)
      · rw [hnew.ste_of_ne hinv hnull hfresh h₁ hsame₁] at hp₁
        rw [hnew.ste_of_ne hinv hnull hfresh h₂ hsame₂] at hp₂
        exact hinv.separate hnull sx₁ h₁ sx₂ h₂ hne pt hp₁ hp₂

/-- A segment without a page table translates nothing. -/
theorem walk_of_empty {v : BitVec 64} (hinv : DatInv s)
    (hempty : steOrigin.get (s.ste (datSx v)) = 0x1fffffffffffff) : s.walk v = none := by
  by_cases hnull : s.segmentTable = 0
  · rw [Dat.walk, if_pos hnull]
  · have hi : steI.get (s.mem (s.segmentTable + 8 * datSx v)) = 1 := by
      rcases hinv.entry hnull _ (datSx_lt v) with hones | ⟨pt, hpt, hp⟩
      · rw [Dat.ste] at hones
        rw [hones, Field.get_allOnes]
        decide
      · exact absurd hempty (hp.ne_marker (hinv.fresh.page _ hpt).2.1)
    simp only [Dat.walk, if_neg hnull, if_pos hi]

/-- A page table of ones translates nothing either. -/
theorem NewPageTable.walk_eq (hnew : NewPageTable s s' sx ptr) (hinv : DatInv s) (hsx : sx < 2048)
    (hnull : s.segmentTable ≠ 0) (hfresh : Fresh s'.allocs) (v : BitVec 64) :
    s'.walk v = s.walk v := by
  have hpx := datPx_lt v
  have hsegment := hnew.apart_segment hinv hnull hfresh
  by_cases hsame : datSx v = sx
  · subst hsame
    rw [walk_of_empty hinv hnew.empty]
    have hpte : pteI.get (s'.mem (ptr + 8 * datPx v)) = 1 := by
      rw [hnew.ones _ (by omega) (by omega) (by omega), Field.get_allOnes]
      decide
    have hvalid := hnew.valid
    have horigin := hnew.origin
    simp only [Dat.ste, hnew.segment] at hvalid horigin
    simp only [Dat.walk, hnew.segment, if_neg hnull, hvalid, horigin, hnew.roundTrip hfresh, hpte,
      if_true]
    decide
  · refine walk_congr hnew.segment (hnew.ste_of_ne hinv hnull hfresh (datSx_lt v) hsame)
      fun hvalid => ?_
    rcases hinv.entry hnull _ (datSx_lt v) with hempty | ⟨pt, hpt, hp⟩
    · rw [hempty, Field.get_allOnes] at hvalid
      exact absurd (by decide) hvalid
    · have := hnew.apart_page hfresh hpt
      have := hfresh.segment_page (hnew.mem_allocs (hinv.segment hnull)) (hnew.mem_allocs hpt)
      rw [hp.2]
      exact hnew.keep _ (by omega) (by omega)

end NewPageTable

/-- **Looking up the page table** of a segment allocates it the first time and
changes no translation. -/
theorem findPageTable_spec {sx page : ℕ} {s s' : Dat} (hsx : sx < 2048)
    (h : findPageTable (s.segmentTable + 8 * sx) s = some (page, s')) (hinv : DatInv s)
    (hnull : s.segmentTable ≠ 0) (hfresh : Fresh s'.allocs) :
    DatInv s' ∧ s'.segmentTable = s.segmentTable ∧ (0, page) ∈ s'.allocs ∧
      PointsTo (s'.ste sx) page ∧ ∀ v, s'.walk v = s.walk v := by
  rcases findPageTable_cases h with ⟨hmark, rfl, rfl⟩ | ⟨ptr, rfl, hnew⟩
  · rcases hinv.entry hnull sx hsx with hempty | ⟨pt, hpt, hp⟩
    · rw [hempty, Field.get_allOnes] at hmark
      exact absurd (by decide) hmark
    · exact ⟨hinv, rfl, hp.2 ▸ hpt, ⟨hp.1, rfl⟩, fun _ => rfl⟩
  · rw [hnew.roundTrip hfresh]
    exact ⟨hnew.inv hinv hnull hfresh, hnew.segment, hnew.ptr_mem, hnew.pointsTo hfresh,
      hnew.walk_eq hinv hsx hnull hfresh⟩

/-- The blocks were fresh before the page table was taken. -/
theorem findPageTable_fresh {sx page : ℕ} {s s' : Dat}
    (h : findPageTable (s.segmentTable + 8 * sx) s = some (page, s')) (hfresh : Fresh s'.allocs) :
    Fresh s.allocs := by
  rcases findPageTable_cases h with ⟨-, rfl, -⟩ | ⟨ptr, -, hnew⟩
  · exact hfresh
  · exact (hnew.allocs ▸ hfresh).tail

/-! ### One call and all calls -/

/-- The store of a page-table entry, in the page table that `virt` leads to. -/
def Dat.storePte (s : Dat) (page : ℕ) (phy virt : BitVec 64) : Dat :=
  let entry := page + 8 * datPx virt
  { s with mem := Function.update s.mem entry (newPte phy (s.mem entry)) }

section StorePte

variable {s : Dat} {page : ℕ} {phy virt : BitVec 64}

/-- A page table entry stored leaves the segment table. -/
theorem ste_storePte (hinv : DatInv s) (hnull : s.segmentTable ≠ 0) (hpage : (0, page) ∈ s.allocs)
    {sx : ℕ} (hsx : sx < 2048) : (s.storePte page phy virt).ste sx = s.ste sx := by
  have := hinv.fresh.segment_page (hinv.segment hnull) hpage
  have := datPx_lt virt
  exact Function.update_of_ne (show s.segmentTable + 8 * sx ≠ page + 8 * datPx virt by omega) ..

/-- A page table entry stored keeps the invariant. -/
theorem DatInv.storePte (hinv : DatInv s) (hnull : s.segmentTable ≠ 0)
    (hpage : (0, page) ∈ s.allocs) : DatInv (s.storePte page phy virt) := by
  refine ⟨hinv.region, hinv.fresh, hinv.segment, fun _ sx hsx => ?_,
    fun _ sx hsx sx' hsx' hne pt hp => ?_⟩
  · rw [ste_storePte hinv hnull hpage hsx]
    exact hinv.entry hnull sx hsx
  · rw [ste_storePte hinv hnull hpage hsx] at hp
    rw [ste_storePte hinv hnull hpage hsx']
    exact hinv.separate hnull sx hsx sx' hsx' hne pt hp

/-- **The store changes one translation.** -/
theorem walk_storePte (hinv : DatInv s) (hnull : s.segmentTable ≠ 0)
    (hpage : (0, page) ∈ s.allocs) (hpoints : PointsTo (s.ste (datSx virt)) page)
    (hvirt : virt.toNat < 2 ^ 31) {v : BitVec 64} (hv : v.toNat < 2 ^ 31) :
    (s.storePte page phy virt).walk v
      = if virtPage virt = virtPage v then some (pfra phy) else s.walk v := by
  have hste : (s.storePte page phy virt).ste (datSx v) = s.ste (datSx v) :=
    ste_storePte hinv hnull hpage (datSx_lt v)
  by_cases hsame : datSx virt = datSx v ∧ datPx virt = datPx v
  · rw [if_pos ((virtPage_eq_iff hvirt hv).2 hsame)]
    rw [← hsame.1] at hste
    have hpte : (s.storePte page phy virt).mem (page + 8 * datPx virt)
        = newPte phy (s.mem (page + 8 * datPx virt)) := Function.update_self ..
    have hpt := hpoints.2
    have hvalid := hpoints.1
    rw [← hste] at hvalid hpt
    simp only [Dat.ste] at hvalid hpt
    have hseg : (s.storePte page phy virt).segmentTable = s.segmentTable := rfl
    simp only [Dat.walk, ← hsame.1, ← hsame.2, hseg, if_neg hnull] at hvalid hpt ⊢
    rw [hvalid, if_neg (by decide), hpt, hpte, pteI_newPte, if_neg (by decide), ptePfra_newPte]
  · rw [if_neg ((virtPage_eq_iff hvirt hv).not.2 hsame)]
    refine walk_congr rfl hste fun hvalid => Function.update_of_ne ?_ ..
    have hpx := datPx_lt v
    have hpx' := datPx_lt virt
    rcases hinv.entry hnull _ (datSx_lt v) with hempty | ⟨pt, hpt, hp⟩
    · rw [hempty, Field.get_allOnes] at hvalid
      exact absurd (by decide) hvalid
    · rw [hp.2]
      by_cases hpages : pt = page
      · -- the same page table: the same segment, so the entry is another one
        have hsx : datSx virt = datSx v := by
          by_contra hne
          exact hinv.separate hnull _ (datSx_lt virt) _ (datSx_lt v) hne page hpoints (hpages ▸ hp)
        omega
      · have := hinv.fresh.page_page hpt hpage hpages
        omega

end StorePte

/-- **One call.**  The page of `virt` is translated to the new frame, every other
page as before. -/
theorem datInsertPage_spec {phy virt : BitVec 64} {s s' : Dat}
    (h : datInsertPage phy virt s = some s') (hvirt : virt.toNat < 2 ^ 31) (hinv : DatInv s)
    (hfresh : Fresh s'.allocs) :
    DatInv s' ∧ ∀ v : BitVec 64, v.toNat < 2 ^ 31 →
      s'.walk v = if virtPage virt = virtPage v then some (pfra phy) else s.walk v := by
  obtain ⟨⟨segment, s₁⟩, hsegment, h⟩ := Option.bind_eq_some_iff.1 h
  obtain ⟨⟨page, s₂⟩, hpage, h⟩ := Option.bind_eq_some_iff.1 h
  obtain rfl : s₂.storePte page phy virt = s' := Option.some.inj h
  have hfresh₂ : Fresh s₂.allocs := hfresh
  obtain rfl := findSegmentTable_eq hsegment hinv.region
  obtain ⟨hinv₁, hnull, hwalk₁⟩ :=
    findSegmentTable_spec hsegment hinv (findPageTable_fresh hpage hfresh₂)
  obtain ⟨hinv₂, hst, hmem, hpoints, hwalk₂⟩ :=
    findPageTable_spec (datSx_lt virt) hpage hinv₁ hnull hfresh₂
  have hnull₂ : s₂.segmentTable ≠ 0 := hst ▸ hnull
  refine ⟨hinv₂.storePte hnull₂ hmem, fun v hv => ?_⟩
  rw [walk_storePte hinv₂ hnull₂ hmem hpoints hvirt hv, hwalk₂, hwalk₁]

/-- No table satisfies the invariant. -/
theorem datInv_init (mem : ℕ → BitVec 64) (supply : List (Option ℕ)) :
    DatInv (.init mem supply) :=
  ⟨rfl, ⟨List.Pairwise.nil, fun _ ha => (nomatch ha)⟩, fun h => absurd rfl h,
    fun h => absurd rfl h, fun h => absurd rfl h⟩

/-- **The last call for a page decides its frame.** -/
theorem lastFrame_append (calls : List DatCall) (call : DatCall) (v : BitVec 64) :
    lastFrame (calls ++ [call]) v
      = if virtPage call.virt = virtPage v then some (pfra call.phy) else lastFrame calls v := by
  rw [lastFrame, List.reverse_append, List.reverse_singleton, List.singleton_append,
    List.find?_cons]
  by_cases h : virtPage call.virt = virtPage v <;> simp [h, lastFrame]

/-- **The tables translate what was inserted last.**  After every sequence of
calls the walk for a page below 2GB gives the frame of the last call for that
page, or an invalid entry if there was none; and one more call changes the
translation of no other page. -/
theorem dat_walk_lastFrame {mem : ℕ → BitVec 64} {supply : List (Option ℕ)}
    {calls : List DatCall} {s : Dat} (hrun : Run DatStep (.init mem supply) calls s) :
    (∀ v : BitVec 64, v.toNat < 2 ^ 31 → s.walk v = lastFrame calls v) ∧
      ∀ call s', DatStep s call s' → ∀ v : BitVec 64, v.toNat < 2 ^ 31 →
        virtPage call.virt ≠ virtPage v → s'.walk v = s.walk v := by
  have hall : DatInv s ∧ ∀ v : BitVec 64, v.toNat < 2 ^ 31 → s.walk v = lastFrame calls v := by
    refine hrun.history (P := fun calls s =>
      DatInv s ∧ ∀ v : BitVec 64, v.toNat < 2 ^ 31 → s.walk v = lastFrame calls v) ?_ ?_
    · exact ⟨datInv_init mem supply, fun v _ => rfl⟩
    · rintro calls t call u ⟨hinv, hwalk⟩ ⟨-, -, hvirt, hins, hfresh⟩
      obtain ⟨hinv', hwalk'⟩ := datInsertPage_spec hins hvirt hinv hfresh
      exact ⟨hinv', fun v hv => by rw [hwalk' v hv, lastFrame_append, hwalk v hv]⟩
  refine ⟨hall.2, ?_⟩
  rintro call s' ⟨-, -, hvirt, hins, hfresh⟩ v hv hne
  rw [(datInsertPage_spec hins hvirt hall.1 hfresh).2 v hv, if_neg hne]

/-- Two calls for page 1: the walk finds the second frame, and for page 2 an entry that is
invalid. -/
theorem dat_walk_lastFrame_twice : ∃ s,
    Run DatStep (.init (fun _ => 0) [some 0x10000, some 0x20000])
      [⟨0x5000, 0x1000⟩, ⟨0x7000, 0x1000⟩] s ∧
      s.walk 0x1000 = some 7 ∧ s.walk 0x2000 = none := by
  have hfresh : Fresh [(0, 0x20000), (2, 0x10000)] := by
    constructor <;> simp [tableSize_zero, tableSize_two]
  obtain ⟨s₁, h₁, hallocs₁⟩ : ∃ s₁, datInsertPage 0x5000 0x1000
      (.init (fun _ => 0) [some 0x10000, some 0x20000]) = some s₁ ∧
        s₁.allocs = [(0, 0x20000), (2, 0x10000)] := ⟨_, rfl, rfl⟩
  have hrun₁ := Run.nil.snoc (DatStep.insert (by decide) (by decide) (by decide) h₁
    (hallocs₁ ▸ hfresh))
  obtain ⟨s₂, h₂, hallocs₂⟩ : ∃ s₂, datInsertPage 0x7000 0x1000 s₁ = some s₂ ∧
      s₂.allocs = [(0, 0x20000), (2, 0x10000)] := by
    obtain rfl := Option.some.inj h₁
    exact ⟨_, rfl, rfl⟩
  have hrun := hrun₁.snoc (DatStep.insert (by decide) (by decide) (by decide) h₂
    (hallocs₂ ▸ hfresh))
  have hwalk := (dat_walk_lastFrame hrun).1
  exact ⟨s₂, hrun, hwalk 0x1000 (by decide), hwalk 0x2000 (by decide)⟩

end Hvf
