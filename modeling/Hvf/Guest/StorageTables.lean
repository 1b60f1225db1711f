/-
# The tables of a guest

What `alloc_guest_storage` stores is in the blocks that it took (`allocGuestStorage_frame`),
and the tables are in blocks of their own: no page of `guest_pages` is one of them
(`TablesApart`).  Below 2GB the tables translate guest page `p` to the page at place `p` of
the list, whatever the storage size is: what the pages from 2GB on have entered is entered
again (`StorageFilled.translate`).
-/

import Hvf.Guest.StorageMap

namespace Hvf

/-- The address is in none of the blocks. -/
def Outside (allocs : List (ℕ × ℕ)) (a : ℕ) : Prop :=
  ∀ x ∈ allocs, a < x.2 ∨ x.2 + tableSize x.1 ≤ a

/-- An address outside all blocks was outside the first of them. -/
theorem Outside.suffix {allocs allocs' : List (ℕ × ℕ)} {a : ℕ} (h : Outside allocs' a)
    (hle : allocs <:+ allocs') : Outside allocs a :=
  fun x hx => h x (hle.subset hx)

/-- No block is taken twice. -/
theorem Fresh.not_mem {x : ℕ × ℕ} {allocs : List (ℕ × ℕ)} (h : Fresh (x :: allocs)) :
    x ∉ allocs := by
  intro hx
  have hself := (List.pairwise_cons.1 h.disjoint).1 x hx
  have hpos : 0 < tableSize x.1 := by
    rw [tableSize_eq]
    positivity
  omega

/-! ### One call -/

section

variable {phy virt : BitVec 64} {s s' : Dat} {a : ℕ}

/-- The segment table is there afterwards, and if it was not, it is empty. -/
theorem findSegmentTable_frame {segment : ℕ} (h : findSegmentTable virt s = some (segment, s'))
    (hinv : DatInv s) : (Outside s'.allocs a → s'.mem a = s.mem a) ∧
      ∀ sx < 2048, ∀ pt, PointsTo (s'.ste sx) pt → s.segmentTable ≠ 0 ∧ PointsTo (s.ste sx) pt := by
  rw [findSegmentTable, if_pos hinv.region] at h
  split at h
  · obtain ⟨⟨ptr, s₁⟩, halloc, hres⟩ := Option.bind_eq_some_iff.1 h
    obtain ⟨rfl, rfl⟩ := Prod.mk.inj (Option.some.inj hres)
    obtain ⟨hallocs, -, -, hones, hkeep⟩ := allocTable_cases halloc
    have hptr : (2, ptr) ∈ s₁.allocs := hallocs ▸ List.mem_cons_self ..
    refine ⟨fun hout => hkeep a (hout _ hptr), fun sx hsx pt hp => ?_⟩
    have hword : s₁.mem (ptr + 8 * sx) = BitVec.allOnes 64 :=
      hones _ (Nat.le_add_right ..) (by rw [tableSize_two]; omega)
    rw [Dat.ste, hword] at hp
    exact absurd hp (not_pointsTo_allOnes pt)
  · rename_i hset
    obtain ⟨rfl, rfl⟩ := Prod.mk.inj (Option.some.inj h)
    exact ⟨fun _ => rfl, fun _ _ _ hp => ⟨hset, hp⟩⟩

/-- A new page table is in a block that was not taken before. -/
theorem findPageTable_frame {sx page : ℕ} (hsx : sx < 2048)
    (h : findPageTable (s.segmentTable + 8 * sx) s = some (page, s')) (hinv : DatInv s)
    (hnull : s.segmentTable ≠ 0) (hfresh : Fresh s'.allocs) :
    (Outside s'.allocs a → s'.mem a = s.mem a) ∧
      ∀ sx' < 2048, ∀ pt, PointsTo (s'.ste sx') pt →
        PointsTo (s.ste sx') pt ∨ (0, pt) ∉ s.allocs := by
  rcases findPageTable_cases h with ⟨-, rfl, -⟩ | ⟨ptr, -, hnew⟩
  · exact ⟨fun _ => rfl, fun _ _ _ hp => Or.inl hp⟩
  · refine ⟨fun hout => ?_, fun sx' hsx' pt hp => ?_⟩
    · have hseg := hout _ (hnew.mem_allocs (hinv.segment hnull))
      have hptr := hout _ hnew.ptr_mem
      rw [tableSize_two] at hseg
      exact hnew.keep a (by dsimp only at hseg; omega) hptr
    · by_cases hsame : sx' = sx
      · subst hsame
        obtain rfl : pt = ptr := hp.2.symm.trans (hnew.pointsTo hfresh).2
        have hcons := hfresh
        rw [hnew.allocs] at hcons
        exact Or.inr hcons.not_mem
      · rw [hnew.ste_of_ne hinv hnull hfresh hsx' hsame] at hp
        exact Or.inl hp

/-- **What one call of `dat_insert_page` keeps**, also for an address from 2GB on: the
tables' invariant, all storage outside its blocks, and that a page table is an old one or
one just taken. -/
structure Inserted (s s' : Dat) : Prop where
  inv : DatInv s'
  frame : ∀ a, Outside s'.allocs a → s'.mem a = s.mem a
  tables : ∀ sx < 2048, ∀ pt, PointsTo (s'.ste sx) pt →
    (s.segmentTable ≠ 0 ∧ PointsTo (s.ste sx) pt) ∨ (0, pt) ∉ s.allocs

/-- Every mapping of a page keeps the tables' invariant and everything outside the blocks taken.
-/
theorem datInsertPage_inserted (h : datInsertPage phy virt s = some s') (hinv : DatInv s)
    (hfresh : Fresh s'.allocs) : Inserted s s' := by
  obtain ⟨⟨segment, s₁⟩, hsegment, h⟩ := Option.bind_eq_some_iff.1 h
  obtain ⟨⟨page, s₂⟩, hpage, h⟩ := Option.bind_eq_some_iff.1 h
  obtain rfl : s₂.storePte page phy virt = s' := Option.some.inj h
  have hfresh₂ : Fresh s₂.allocs := hfresh
  obtain rfl := findSegmentTable_eq hsegment hinv.region
  have hfresh₁ := findPageTable_fresh hpage hfresh₂
  obtain ⟨hinv₁, hnull, -⟩ := findSegmentTable_spec hsegment hinv hfresh₁
  obtain ⟨hinv₂, hst, hmem, -⟩ := findPageTable_spec (datSx_lt virt) hpage hinv₁ hnull hfresh₂
  have hnull₂ : s₂.segmentTable ≠ 0 := hst ▸ hnull
  have hgrows := findSegmentTable_grows hsegment
  have hgrows₂ := findPageTable_grows hpage
  have hseg := fun a => findSegmentTable_frame (a := a) hsegment hinv
  have hpt := fun a => findPageTable_frame (a := a) (datSx_lt virt) hpage hinv₁ hnull hfresh₂
  constructor
  case inv => exact hinv₂.storePte hnull₂ hmem
  case frame =>
    intro a hout
    have hpx := datPx_lt virt
    have hentry := hout _ hmem
    rw [tableSize_zero] at hentry
    have hstore : (s₂.storePte page phy virt).mem a = s₂.mem a :=
      Function.update_of_ne (show a ≠ page + 8 * datPx virt by dsimp only at hentry; omega) ..
    rw [hstore, (hpt a).1 hout, (hseg a).1 (hout.suffix hgrows₂.allocs)]
  case tables =>
    intro sx hsx pt hp
    rw [ste_storePte hinv₂ hnull₂ hmem hsx] at hp
    rcases (hpt 0).2 sx hsx pt hp with hp | hnew
    · exact Or.inl ((hseg 0).2 sx hsx pt hp)
    · exact Or.inr fun hold => hnew (hgrows.allocs.subset hold)

end

/-! ### All calls -/

/-- No page of the list is a page table. -/
def TablesApart (g : GuestStorage) : Prop :=
  g.dat.segmentTable ≠ 0 → ∀ sx < 2048, ∀ pt, PointsTo (g.dat.ste sx) pt → pt ∉ g.guestPages

/-- **After the pages from `left` on** those below 2GB are translated; those above may have
been entered over others, so nothing is said of them. -/
structure StorageFilled (left : ℕ) (g : GuestStorage) : Prop where
  dat : DatInv g.dat
  apart : TablesApart g
  pages : ∀ p ∈ g.guestPages, (0, p) ∈ g.dat.allocs
  walk : ∀ v : BitVec 64, v.toNat < 2 ^ 31 → left ≤ (virtPage v).toNat →
    g.dat.walk v = g.guestPages[(virtPage v).toNat - left]?.map fun p => pfra (BitVec.ofNat 64 p)

section

variable {left p : ℕ} {g g' : GuestStorage} {ret : Int}

/-- **One round of the loop**: the page is entered, those entered before keep their frames. -/
theorem StorageFilled.round (hinv : StorageFilled (left + 1) g)
    {supply : List (Option ℕ)} {dat : Dat}
    (hins : datInsertPage (BitVec.ofNat 64 p) (guestAddr left) (g.dat.take p supply) = some dat)
    (hsuffix : (g.dat.take p supply).allocs <:+ dat.allocs) (hfresh : Fresh dat.allocs) :
    StorageFilled left ⟨dat, p :: g.guestPages⟩ := by
  have hfresh' : Fresh ((0, p) :: g.dat.allocs) := hfresh.suffix hsuffix
  have htake : DatInv (g.dat.take p supply) := hinv.dat.take hfresh'
  have hdone := datInsertPage_inserted hins htake hfresh
  have hpages : ∀ q ∈ p :: g.guestPages, (0, q) ∈ (g.dat.take p supply).allocs := by
    intro q hq
    rcases List.mem_cons.1 hq with rfl | hq
    · exact List.mem_cons_self
    · exact List.mem_cons_of_mem _ (hinv.pages q hq)
  constructor
  case dat => exact hdone.inv
  case apart =>
    intro _ sx hsx pt hp hmem
    rcases hdone.tables sx hsx pt hp with ⟨hnull, hold⟩ | hnew
    · -- an older table: its block was taken before that of the page
      have hblock : (0, pt) ∈ g.dat.allocs := by
        rcases hinv.dat.entry hnull sx hsx with hempty | ⟨pt', hpt', hp'⟩
        · exact absurd hold (hempty ▸ not_pointsTo_allOnes pt)
        · obtain rfl := hp'.2.symm.trans hold.2
          exact hpt'
      rcases List.mem_cons.1 hmem with rfl | hmem
      · exact hfresh'.not_mem hblock
      · exact hinv.apart hnull sx hsx pt hold hmem
    · exact hnew (hpages pt hmem)
  case pages => exact fun q hq => hsuffix.subset (hpages q hq)
  case walk =>
    intro v hv hle
    have hpage := virtPage_toNat v
    have haddr : (guestAddr left).toNat = 4096 * left := guestAddr_toNat (by omega)
    rw [(datInsertPage_spec hins (by omega) htake hfresh).2 v hv]
    have hsame : virtPage (guestAddr left) = virtPage v ↔ left = (virtPage v).toNat := by
      rw [← BitVec.toNat_inj, virtPage_toNat, haddr, Nat.mul_div_cancel_left _ (by decide)]
    rcases Nat.eq_or_lt_of_le hle with heq | hlt
    · rw [if_pos (hsame.2 heq), ← heq, Nat.sub_self]
      rfl
    · rw [if_neg (hsame.not.2 hlt.ne)]
      obtain ⟨i, hi⟩ := Nat.exists_eq_add_of_lt hlt
      have hold := hinv.walk v hv hlt
      rw [hi, show left + i + 1 - (left + 1) = i by omega] at hold
      rw [hi, show left + i + 1 - left = i + 1 by omega, List.getElem?_cons_succ]
      exact hold

/-- The storage behind the whole loop, by induction on the pages left. -/
theorem fillGuestStorage_filled (h : fillGuestStorage left g = some (0, g'))
    (hinv : StorageFilled left g) (hfresh : Fresh g'.dat.allocs) : StorageFilled 0 g' := by
  induction left generalizing g with
  | zero =>
    obtain ⟨-, rfl⟩ := Prod.mk.inj (Option.some.inj h)
    exact hinv
  | succ left ih =>
    rcases fillGuestStorage_succ h with ⟨hret, -⟩ | ⟨p, supply, dat, hsupply, hins, hrest⟩
    · cases hret
    · have hgrows := datInsertPage_grows hins
      have hrest' := fillGuestStorage_grows hrest
      exact ih hrest (hinv.round hins hgrows.allocs (hfresh.suffix hrest'.allocs))

/-- The loop stores in the blocks it has taken. -/
theorem fillGuestStorage_frame (h : fillGuestStorage left g = some (ret, g')) (hinv : DatInv g.dat)
    (hfresh : Fresh g'.dat.allocs) {a : ℕ} (hout : Outside g'.dat.allocs a) :
    g'.dat.mem a = g.dat.mem a := by
  induction left generalizing g with
  | zero =>
    obtain ⟨-, rfl⟩ := Prod.mk.inj (Option.some.inj h)
    rfl
  | succ left ih =>
    rcases fillGuestStorage_succ h with ⟨-, rfl⟩ | ⟨p, supply, dat, hsupply, hins, hrest⟩
    · rfl
    · have hgrows := datInsertPage_grows hins
      have hrest' := fillGuestStorage_grows hrest
      have hfresh' := hfresh.suffix hrest'.allocs
      have hdone := datInsertPage_inserted hins (hinv.take (hfresh'.suffix hgrows.allocs)) hfresh'
      rw [ih hrest hdone.inv, hdone.frame a (hout.suffix hrest'.allocs)]
      rfl

end

/-- Before the first page there is nothing to translate. -/
theorem storageFilled_init (left : ℕ) (mem : ℕ → BitVec 64) (pages : List (Option ℕ)) :
    StorageFilled left (.init .null mem pages) := by
  refine ⟨datInv_init _ _, fun hnull => absurd rfl hnull, fun _ hp => ?_, fun v _ _ => rfl⟩
  exact absurd hp List.not_mem_nil

/-- **Storage outside of the blocks** that were taken is as it was. -/
theorem allocGuestStorage_frame {storageSize : BitVec 64} {mem : ℕ → BitVec 64}
    {pages : List (Option ℕ)} {ret : Int} {g : GuestStorage}
    (h : allocGuestStorage storageSize .null mem pages = some (ret, g))
    (hfresh : Fresh g.dat.allocs)
    {a : ℕ} (hout : Outside g.dat.allocs a) : g.dat.mem a = mem a :=
  fillGuestStorage_frame h (datInv_init _ _) hfresh hout

/-- **What the tables translate**, for a guest of any size. -/
theorem StorageFilled.translate {g : GuestStorage} (h : StorageFilled 0 g) (v : BitVec 64) :
    g.dat.translate v = (g.guestPages.take (2 ^ 19))[v.toNat / 4096]?.map fun p =>
      pfra (BitVec.ofNat 64 p) := by
  rw [Dat.translate]
  split
  case isTrue hlow =>
    have hv := (datRx_eq_zero_iff v).1 hlow
    rw [h.walk v hv (Nat.zero_le _), Nat.sub_zero, virtPage_toNat,
      List.getElem?_take_of_lt (by omega)]
  case isFalse hhigh =>
    have hv := (datRx_eq_zero_iff v).not.1 hhigh
    rw [List.getElem?_eq_none]
    · rfl
    · rw [List.length_take]
      omega

end Hvf
