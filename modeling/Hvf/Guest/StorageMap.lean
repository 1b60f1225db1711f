/-
# Guest storage is mapped page by page

The tables take 11 bits of segment index, so what `alloc_guest_storage` enters from
2GB on lands where the pages below 2GB go.  Up to 2GB, and where there were no tables
before, guest page `p` is the one on `guest_pages` at place `p` (`fillGuestStorage_walk`).
That no page is used twice is the partition of the allocator: the blocks of all guests are
among those handed out (`HostInv`).
-/

import Hvf.Guest.StorageRoom

namespace Hvf

open BitField StepRun

/-! ### What is taken from the allocator -/

/-- **What the calls of `dat_insert_page` take:** the tables and pages taken so far stay, and
what is new is among the results of `alloc_pages`.  `region_table` is never set, and with
one there `segment_table` is not set either. -/
structure Dat.Grows (s s' : Dat) : Prop where
  allocs : s.allocs <:+ s'.allocs
  supply : s'.supply <:+ s.supply
  new : ∀ x ∈ s'.allocs, x ∈ s.allocs ∨ some x.2 ∈ s.supply
  region : s'.regionTable = s.regionTable
  segment : s.regionTable ≠ 0 → s'.segmentTable = s.segmentTable

/-- No call takes nothing. -/
theorem Dat.Grows.refl (s : Dat) : s.Grows s :=
  ⟨List.suffix_rfl, List.suffix_rfl, fun _ hx => Or.inl hx, rfl, fun _ => rfl⟩

/-- What two calls take, they take together. -/
theorem Dat.Grows.trans {s t u : Dat} (h : s.Grows t) (h' : t.Grows u) : s.Grows u := by
  refine ⟨h.allocs.trans h'.allocs, h'.supply.trans h.supply, fun x hx => ?_,
    h'.region.trans h.region, fun hne => ?_⟩
  · rcases h'.new x hx with hx | hx
    · exact h.new x hx
    · exact Or.inr (h.supply.subset hx)
  · exact (h'.segment (h.region.trans_ne hne)).trans (h.segment hne)

/-- A page taken from the supply is one of the results of `alloc_pages`. -/
theorem Dat.grows_take {s : Dat} {p : ℕ} {supply : List (Option ℕ)}
    (h : s.supply = some p :: supply) : s.Grows (s.take p supply) := by
  refine ⟨List.suffix_cons _ _, h ▸ List.suffix_cons _ _, fun x hx => ?_, rfl, fun _ => rfl⟩
  rcases List.mem_cons.1 hx with rfl | hx
  · exact Or.inr (h ▸ List.mem_cons_self)
  · exact Or.inl hx

/-- A table allocated is one of these results. -/
theorem allocTable_grows {order ptr : ℕ} {s s' : Dat} (h : allocTable order s = some (ptr, s')) :
    s.Grows s' := by
  unfold allocTable at h
  split at h
  · rename_i p supply hsupply
    obtain ⟨rfl, rfl⟩ := Prod.mk.inj (Option.some.inj h)
    refine ⟨List.suffix_cons _ _, hsupply ▸ List.suffix_cons _ _, fun x hx => ?_, rfl,
      fun _ => rfl⟩
    rcases List.mem_cons.1 hx with rfl | hx
    · exact Or.inr (hsupply ▸ List.mem_cons_self)
    · exact Or.inl hx
  · cases h

/-- Finding a segment table takes at most that table. -/
theorem findSegmentTable_grows {virt : BitVec 64} {s s' : Dat} {segment : ℕ}
    (h : findSegmentTable virt s = some (segment, s')) : s.Grows s' := by
  unfold findSegmentTable at h
  split_ifs at h with hregion hsegment hrx hentry
  · obtain ⟨⟨ptr, s₁⟩, halloc, hres⟩ := Option.bind_eq_some_iff.1 h
    obtain ⟨rfl, rfl⟩ := Prod.mk.inj (Option.some.inj hres)
    obtain ⟨hallocs, hsupply, hnew, hregion', -⟩ := allocTable_grows halloc
    exact ⟨hallocs, hsupply, hnew, hregion', fun hne => absurd hregion hne⟩
  · obtain ⟨rfl, rfl⟩ := Prod.mk.inj (Option.some.inj h)
    exact Dat.Grows.refl s
  · -- the new segment table goes into the region-table entry
    obtain ⟨⟨ptr, s₁⟩, halloc, hres⟩ := Option.bind_eq_some_iff.1 h
    obtain ⟨-, rfl⟩ := Prod.mk.inj (Option.some.inj hres)
    obtain ⟨hallocs, hsupply, hnew, hregion', hsegment⟩ := allocTable_grows halloc
    exact ⟨hallocs, hsupply, hnew, hregion', hsegment⟩
  · obtain ⟨-, rfl⟩ := Prod.mk.inj (Option.some.inj h)
    exact Dat.Grows.refl s

/-- Finding a page table takes at most that table. -/
theorem findPageTable_grows {segment page : ℕ} {s s' : Dat}
    (h : findPageTable segment s = some (page, s')) : s.Grows s' := by
  unfold findPageTable at h
  split at h
  · obtain ⟨⟨ptr, s₁⟩, halloc, hres⟩ := Option.bind_eq_some_iff.1 h
    obtain ⟨rfl, rfl⟩ := Prod.mk.inj (Option.some.inj hres)
    obtain ⟨hallocs, hsupply, hnew, hregion, hsegment⟩ := allocTable_grows halloc
    exact ⟨hallocs, hsupply, hnew, hregion, hsegment⟩
  · obtain ⟨rfl, rfl⟩ := Prod.mk.inj (Option.some.inj h)
    exact Dat.Grows.refl s

/-- **What mapping a page takes**: at most the two tables, from the results of `alloc_pages`. -/
theorem datInsertPage_grows {phy virt : BitVec 64} {s s' : Dat}
    (h : datInsertPage phy virt s = some s') : s.Grows s' := by
  obtain ⟨⟨segment, s₁⟩, hsegment, h⟩ := Option.bind_eq_some_iff.1 h
  obtain ⟨⟨page, s₂⟩, hpage, h⟩ := Option.bind_eq_some_iff.1 h
  obtain rfl := Option.some.inj h
  obtain ⟨hallocs, hsupply, hnew, hregion, hsegment⟩ :=
    (findSegmentTable_grows hsegment).trans (findPageTable_grows hpage)
  exact ⟨hallocs, hsupply, hnew, hregion, hsegment⟩

/-- A round of the loop of `alloc_guest_storage`. -/
theorem fillGuestStorage_succ {pages : ℕ} {g g' : GuestStorage} {ret : Int}
    (h : fillGuestStorage (pages + 1) g = some (ret, g')) :
    (ret = -enomem ∧ g' = g) ∨ ∃ p supply dat, g.dat.supply = some p :: supply ∧
      datInsertPage (BitVec.ofNat 64 p) (guestAddr pages) (g.dat.take p supply) = some dat ∧
      fillGuestStorage pages ⟨dat, p :: g.guestPages⟩ = some (ret, g') := by
  rw [fillGuestStorage] at h
  split at h
  · rename_i p supply hsupply
    obtain ⟨dat, hins, hrest⟩ := Option.bind_eq_some_iff.1 h
    exact Or.inr ⟨p, supply, dat, hsupply, hins, hrest⟩
  · obtain ⟨rfl, rfl⟩ := Prod.mk.inj (Option.some.inj h)
    exact Or.inl ⟨rfl, rfl⟩

/-- What filling a guest's storage takes, over all its pages. -/
theorem fillGuestStorage_grows {pages : ℕ} {g g' : GuestStorage} {ret : Int}
    (h : fillGuestStorage pages g = some (ret, g')) : g.dat.Grows g'.dat := by
  induction pages generalizing g with
  | zero =>
    obtain ⟨-, rfl⟩ := Prod.mk.inj (Option.some.inj h)
    exact Dat.Grows.refl _
  | succ pages ih =>
    rcases fillGuestStorage_succ h with ⟨-, rfl⟩ | ⟨p, supply, dat, hsupply, hins, hrest⟩
    · exact Dat.Grows.refl _
    · have hgrows := (Dat.grows_take hsupply).trans (datInsertPage_grows hins)
      exact hgrows.trans (ih hrest)

/-! ### The tables of one guest -/

/-- Blocks that are fresh were so before the last ones were taken. -/
theorem Fresh.suffix {allocs allocs' : List (ℕ × ℕ)} (h : Fresh allocs')
    (hle : allocs <:+ allocs') :
    Fresh allocs :=
  ⟨h.disjoint.sublist hle.sublist, fun a ha => h.page a (hle.subset ha)⟩

/-- A page taken for the guest keeps the invariant of the tables. -/
theorem DatInv.take {s : Dat} (h : DatInv s) {p : ℕ} {supply : List (Option ℕ)}
    (hfresh : Fresh (s.take p supply).allocs) : DatInv (s.take p supply) := by
  refine ⟨h.region, hfresh, fun hne => List.mem_cons_of_mem _ (h.segment hne),
    fun hne sx hsx => ?_, h.separate⟩
  exact (h.entry hne sx hsx).imp_right fun ⟨pt, hpt, hp⟩ => ⟨pt, List.mem_cons_of_mem _ hpt, hp⟩

/-- The address of a guest's page is 4096 times its number. -/
theorem guestAddr_toNat {p : ℕ} (hp : p < 2 ^ 52) : (guestAddr p).toNat = 4096 * p := by
  rw [guestAddr, BitVec.toNat_ofNat, Nat.shiftLeft_eq, show pageShift = 12 from rfl]
  omega

/-- The page number of an address is the address divided by 4096. -/
theorem virtPage_toNat (v : BitVec 64) : (virtPage v).toNat = v.toNat / 4096 := by
  rw [virtPage, BitVec.toNat_ushiftRight, Nat.shiftRight_eq_div_pow]
  rfl

/-- An address needs no region table exactly when it is below 2 GB. -/
theorem datRx_eq_zero_iff (v : BitVec 64) : datRx v = 0 ↔ v.toNat < 2 ^ 31 := by
  rw [datRx, BitVec.toNat_ushiftRight, Nat.shiftRight_eq_div_pow]
  omega

/-- **After the pages from `left` on** the tables translate these to the pages taken for
them, and no other address below 2GB. -/
structure StorageInv (left : ℕ) (g : GuestStorage) : Prop where
  dat : DatInv g.dat
  walk : ∀ v : BitVec 64, v.toNat < 2 ^ 31 → g.dat.walk v =
    if (virtPage v).toNat < left then none
    else g.guestPages[(virtPage v).toNat - left]?.map fun p => pfra (BitVec.ofNat 64 p)

/-- A round of the loop enters one page more. -/
theorem StorageInv.round {left p : ℕ} (hleft : left < 2 ^ 19) {g : GuestStorage}
    (hinv : StorageInv (left + 1) g) {supply : List (Option ℕ)} {dat : Dat}
    (hins : datInsertPage (BitVec.ofNat 64 p) (guestAddr left) (g.dat.take p supply) = some dat)
    (hsuffix : (g.dat.take p supply).allocs <:+ dat.allocs) (hfresh : Fresh dat.allocs) :
    StorageInv left ⟨dat, p :: g.guestPages⟩ := by
  have haddr : (guestAddr left).toNat = 4096 * left := guestAddr_toNat (by omega)
  obtain ⟨hdat, hwalk⟩ :=
    datInsertPage_spec hins (by omega) (hinv.dat.take (hfresh.suffix hsuffix)) hfresh
  refine ⟨hdat, fun v hv => ?_⟩
  have hold : (g.dat.take p supply).walk v = g.dat.walk v := rfl
  have hsame : virtPage (guestAddr left) = virtPage v ↔ left = (virtPage v).toNat := by
    rw [← BitVec.toNat_inj, virtPage_toNat, haddr, Nat.mul_div_cancel_left _ (by decide)]
  simp only [hwalk v hv, hold, hinv.walk v hv, hsame]
  rcases Nat.lt_trichotomy (virtPage v).toNat left with hlt | heq | hgt
  · rw [if_neg hlt.ne', if_pos (by omega), if_pos hlt]
  · rw [if_pos heq.symm, if_neg heq.not_lt, heq, Nat.sub_self]
    rfl
  · rw [if_neg hgt.ne, if_neg (by omega), if_neg (by omega)]
    obtain ⟨i, hi⟩ := Nat.exists_eq_add_of_lt hgt
    rw [hi, show left + i + 1 - (left + 1) = i by omega, show left + i + 1 - left = i + 1 by omega,
      List.getElem?_cons_succ]

/-- **The loop enters page after page**, downward. -/
theorem fillGuestStorage_walk {left : ℕ} (hleft : left ≤ 2 ^ 19) {g g' : GuestStorage}
    (h : fillGuestStorage left g = some (0, g')) (hinv : StorageInv left g)
    (hfresh : Fresh g'.dat.allocs) : StorageInv 0 g' := by
  induction left generalizing g with
  | zero =>
    obtain ⟨-, rfl⟩ := Prod.mk.inj (Option.some.inj h)
    exact hinv
  | succ left ih =>
    rcases fillGuestStorage_succ h with ⟨hret, -⟩ | ⟨p, supply, dat, hsupply, hins, hrest⟩
    · cases hret
    · have hgrows := datInsertPage_grows hins
      have hrest' := fillGuestStorage_grows hrest
      have hround := hinv.round (by omega) hins hgrows.allocs (hfresh.suffix hrest'.allocs)
      exact ih (by omega) hrest hround

/-- Each page of the list was taken from the allocator. -/
theorem fillGuestStorage_pages {left : ℕ} {g g' : GuestStorage} {ret : Int}
    (h : fillGuestStorage left g = some (ret, g'))
    (htaken : (g.guestPages.map (Prod.mk 0)).Sublist g.dat.allocs) :
    (g'.guestPages.map (Prod.mk 0)).Sublist g'.dat.allocs ∧
      (ret = 0 → g'.guestPages.length = g.guestPages.length + left) := by
  induction left generalizing g with
  | zero =>
    obtain ⟨-, rfl⟩ := Prod.mk.inj (Option.some.inj h)
    exact ⟨htaken, fun _ => rfl⟩
  | succ left ih =>
    rcases fillGuestStorage_succ h with ⟨rfl, rfl⟩ | ⟨p, supply, dat, hsupply, hins, hrest⟩
    · exact ⟨htaken, fun hret => by cases hret⟩
    · have hgrows := datInsertPage_grows hins
      have htaken' : ((p :: g.guestPages).map (Prod.mk 0)).Sublist dat.allocs :=
        (htaken.cons_cons (0, p)).trans hgrows.allocs.sublist
      obtain ⟨hsublist, hlength⟩ := ih hrest htaken'
      refine ⟨hsublist, fun hret => ?_⟩
      rw [hlength hret, List.length_cons]
      omega

/-! ### All guests -/

/-- The blocks that the events take. -/
def taken (evs : List BuddyEvent) : List Block :=
  evs.filterMap fun
    | .alloc order _ (some page) => some (order, page)
    | _ => none

/-- The blocks that a run of the page allocator hands out, run after run. -/
theorem taken_append (evs evs' : List BuddyEvent) : taken (evs ++ evs') = taken evs ++ taken evs' :=
  List.filterMap_append

/-- Calls of `alloc_pages` alone only add to what is handed out. -/
theorem run_taken {s s' : BuddyState} {evs : List BuddyEvent} (hrun : Run BuddyStep s evs s')
    (halloc : ∀ ptr order, BuddyEvent.free ptr order ∉ evs) :
    s'.out = (taken evs : Multiset Block) + s.out := by
  induction hrun with
  | nil => exact (zero_add _).symm
  | @snoc evs t ev u _ hstep ih =>
    have hout := ih fun ptr order hmem => halloc ptr order (List.mem_append_left _ hmem)
    rw [taken_append, ← Multiset.coe_add]
    cases hstep with
    | @alloc order type page b _ =>
      cases page with
      | none => exact hout.trans (congrArg (· + s.out) (add_zero _).symm)
      | some page =>
        have hone : (taken [.alloc order type (some page)] : Multiset Block) =
            {(order, page)} := rfl
        rw [hone, add_comm _ {(order, page)}, Multiset.singleton_add, Multiset.cons_add, ← hout]
        rfl
    | free _ _ => exact absurd (List.mem_append_right _ List.mem_cons_self) (halloc _ _)

/-- The calls a guest's creation makes hand out that guest's blocks. -/
theorem taken_calls (g : HostGuest) : (taken g.calls : Multiset Block) = g.storage.blocks := by
  have hfailed : taken (if g.ret = 0 then [] else [.alloc 0 .normal none]) = [] := by
    split
    · rfl
    · rfl
  have hblocks : ∀ l : List Block,
      taken (l.map fun x => .alloc x.1 .normal (some x.2)) = l := by
    intro l
    induction l with
    | nil => rfl
    | cons x l ih => exact congrArg (x :: ·) ih
  rw [HostGuest.calls, taken_append, hfailed, List.append_nil, hblocks]
  exact Quotient.sound (List.reverse_perm _)

/-- **The blocks of the guests are among those handed out**, by an allocator that keeps its
partition, and every guest is what its creation has left. -/
structure HostInv (pages : Multiset ℕ) (h : Host) : Prop where
  buddy : BuddyInv pages h.buddy
  held : (h.guests.flatMap fun g => g.storage.blocks : Multiset Block) ≤ h.buddy.out
  calls : ∀ g ∈ h.guests, ∃ mem supply,
    allocGuestStorage g.storageSize g.as mem supply = some (g.ret, g.storage)

/-- **One event of the host**: a guest made, or a call of the page allocator, keeps the blocks
of the guests among those handed out. -/
theorem hostInv_step {pages : Multiset ℕ} {h h' : Host} {ev : HostEvent} (hinv : HostInv pages h)
    (hstep : HostStep h ev h') : HostInv pages h' := by
  cases hstep with
  | @guest g mem supply b hcall hrun =>
    refine ⟨hrun.invariant hinv.buddy fun _ _ _ hinv' hstep' => hstep'.inv hinv', ?_, ?_⟩
    · have hfree : ∀ ptr order, BuddyEvent.free ptr order ∉ g.calls := by
        intro ptr order hmem
        rcases List.mem_append.1 hmem with hmem | hmem
        · obtain ⟨x, -, hx⟩ := List.mem_map.1 hmem
          cases hx
        · split at hmem
          · cases hmem
          · cases List.mem_singleton.1 hmem
      rw [List.flatMap_cons, ← Multiset.coe_add, run_taken hrun hfree, taken_calls]
      exact Multiset.add_le_add_left hinv.held
    · intro g' hg'
      rcases List.mem_cons.1 hg' with rfl | hg'
      · exact ⟨mem, supply, hcall⟩
      · exact hinv.calls g' hg'
  | @other ev b hstep' hkept =>
    refine ⟨hstep'.inv hinv.buddy, ?_, hinv.calls⟩
    have hheld := hinv.held
    cases hstep' with
    | @alloc order type page b _ =>
      cases page with
      | none => exact hheld
      | some page => exact hheld.trans (Multiset.le_cons_self _ _)
    | @free order page b _ _ =>
      have hnot : (order, page) ∉ (h.guests.flatMap fun g => g.storage.blocks) := by
        intro hmem
        obtain ⟨g, hg, hblock⟩ := List.mem_flatMap.1 hmem
        have := hkept _ _ rfl g hg
        rw [addrToPage_pageToAddr] at this
        exact this hblock
      have herase := Multiset.erase_le_erase (order, page) hheld
      rwa [Multiset.erase_of_notMem (by simpa using hnot)] at herase

/-- The invariant over whole runs, from the pages that the host's initialization frees. -/
theorem hostInv_run {memsize start : BitVec 64} (hinit : InitExact memsize start)
    {evs : List HostEvent} {h : Host} (hrun : Run HostStep (.init memsize start) evs h) :
    HostInv (initPages memsize start) h :=
  hrun.invariant ⟨buddyInv_init hinit, Multiset.zero_le _, fun _ hg => (nomatch hg)⟩
    fun _ _ _ hinv hstep => hostInv_step hinv hstep

/-! ### No page is used twice -/

/-- Blocks without a common page are one behind the other. -/
theorem pairwise_of_nodup {l : List Block} (h : (pagesOf l).Nodup) :
    l.Pairwise fun x y => x.2 + 2 ^ x.1 ≤ y.2 ∨ y.2 + 2 ^ y.1 ≤ x.2 := by
  induction l with
  | nil => exact List.Pairwise.nil
  | cons x l ih =>
    rw [← Multiset.cons_coe, pagesOf_cons] at h
    obtain ⟨-, hrest, hdisj⟩ := Multiset.nodup_add.1 h
    refine List.pairwise_cons.2 ⟨fun y hy => ?_, ih hrest⟩
    by_contra hover
    -- the later one of the two first pages is in both blocks
    have hx := Nat.two_pow_pos x.1
    have hy' := Nat.two_pow_pos y.1
    have hfirst : max x.2 y.2 ∈ blockPages x := by
      rw [blockPages, Multiset.mem_Ico]
      omega
    have hsecond : max x.2 y.2 ∈ pagesOf l := mem_pagesOf.2 ⟨y, hy, by omega, by omega⟩
    exact Multiset.disjoint_left.1 hdisj hfirst hsecond

/-- More blocks have more pages. -/
theorem pagesOf_mono {x y : Multiset Block} (h : x ≤ y) : pagesOf x ≤ pagesOf y := by
  obtain ⟨z, rfl⟩ := Multiset.le_iff_exists_add.1 h
  rw [pagesOf_add]
  exact Multiset.le_add_right _ _

/-- What is handed out has each page of the machine at most once. -/
theorem BuddyInv.pagesOf_le {pages : Multiset ℕ} {s : BuddyState} (h : BuddyInv pages s)
    {l : Multiset Block} (hle : l ≤ s.out) : pagesOf l ≤ pages := by
  rw [← h.cover]
  exact pagesOf_mono (hle.trans (Multiset.le_add_left _ _))

/-- The host's pages are not page 0, and their addresses fit 64 bits. -/
theorem mem_initPages {memsize start : BitVec 64} (hstart : pageSize ≤ start.toNat) {p : ℕ}
    (hp : p ∈ initPages memsize start) : 0 < p ∧ p < 2 ^ 52 := by
  have hmem := memsize.isLt
  have hend : zoneLowEnd = 2 ^ 31 := rfl
  rw [initPages, Multiset.mem_add, initNormalPages, initLowPages, Multiset.mem_Ico,
    Multiset.mem_Ico, addrToPage_eq, addrToPage_eq, addrToPage_eq, addrToPage_eq] at hp
  rw [pageSize_eq] at hstart
  omega

/-- What is handed out to one guest or two, in order. -/
theorem HostInv.apart {pages : Multiset ℕ} {h : Host} (hinv : HostInv pages h)
    (hnodup : pages.Nodup) {l : List Block}
    (hle : (l : Multiset Block) ≤ (h.guests.flatMap fun g => g.storage.blocks : List Block)) :
    l.Pairwise fun x y => x.2 + 2 ^ x.1 ≤ y.2 ∨ y.2 + 2 ^ y.1 ≤ x.2 :=
  pairwise_of_nodup (Multiset.nodup_of_le (hinv.buddy.pagesOf_le (hle.trans hinv.held)) hnodup)

/-- The blocks of one guest are among those of all guests. -/
theorem blocks_le {gs : List HostGuest} {g : HostGuest} (hg : g ∈ gs) :
    (g.storage.blocks : Multiset Block) ≤ (gs.flatMap fun g => g.storage.blocks : List Block) := by
  have hmem : g.storage.blocks ∈ gs.map fun g => g.storage.blocks := List.mem_map.2 ⟨g, hg, rfl⟩
  rw [List.flatMap_def]
  exact Multiset.coe_le.2 (List.sublist_flatten_of_mem hmem).subperm

/-- `page_to_addr` gave the addresses. -/
theorem HostInv.aligned {pages : Multiset ℕ} {h : Host} (hinv : HostInv pages h) {g : HostGuest}
    (hg : g ∈ h.guests) {x : ℕ × ℕ} (hx : x ∈ g.storage.dat.allocs) :
    x.2 = pageToAddr (addrToPage x.2) := by
  obtain ⟨mem, supply, hcall⟩ := hinv.calls g hg
  rcases (fillGuestStorage_grows hcall).new x hx with hnone | hsupply
  · cases hnone
  · obtain ⟨page, -, hpage⟩ := List.mem_map.1 hsupply
    obtain ⟨p, -, hp⟩ := Option.map_eq_some_iff.1 hpage
    rw [← hp, addrToPage_pageToAddr]

/-- A table of order `order` is `2^order` pages. -/
theorem tableSize_eq (order : ℕ) : tableSize order = 4096 * 2 ^ order := by
  rw [tableSize, pageSize_eq, Nat.shiftLeft_eq]

/-- The tables and pages of a guest are as `alloc_pages` promises. -/
theorem HostInv.fresh {memsize start : BitVec 64} {h : Host}
    (hinv : HostInv (initPages memsize start) h) (hstart : pageSize ≤ start.toNat) {g : HostGuest}
    (hg : g ∈ h.guests) : Fresh g.storage.dat.allocs := by
  have hle := blocks_le hg
  constructor
  case disjoint =>
    have hapart := hinv.apart (initPages_nodup memsize start) hle
    rw [GuestStorage.blocks, List.pairwise_map] at hapart
    refine hapart.imp_of_mem fun {x y} hx hy hxy => ?_
    have hx' := hinv.aligned hg hx
    have hy' := hinv.aligned hg hy
    rw [pageToAddr_eq] at hx' hy'
    rw [tableSize_eq, tableSize_eq]
    dsimp only at hxy
    omega
  case page =>
    intro x hx
    have hx' := hinv.aligned hg hx
    rw [pageToAddr_eq] at hx'
    have hblock : (x.1, addrToPage x.2) ∈ (g.storage.blocks : Multiset Block) :=
      Multiset.mem_coe.2 (List.mem_map.2 ⟨x, hx, rfl⟩)
    have hpages := hinv.buddy.pagesOf_le (hle.trans hinv.held)
    have hin : ∀ p, addrToPage x.2 ≤ p → p < addrToPage x.2 + 2 ^ x.1 → 0 < p ∧ p < 2 ^ 52 :=
      fun p hp hp' => mem_initPages hstart
        (Multiset.mem_of_le hpages (mem_pagesOf.2 ⟨_, hblock, hp, hp'⟩))
    have hpos := Nat.two_pow_pos x.1
    obtain ⟨hfirst, -⟩ := hin (addrToPage x.2) le_rfl (by omega)
    obtain ⟨-, hlast⟩ := hin (addrToPage x.2 + 2 ^ x.1 - 1) (by omega) (by omega)
    rw [tableSize_eq]
    omega

/-! ### The mapping of a guest -/

/-- Before the first page nothing is translated. -/
theorem storageInv_init (left : ℕ) (mem : ℕ → BitVec 64) (pages : List (Option ℕ)) :
    StorageInv left (.init .null mem pages) := by
  refine ⟨datInv_init _ _, fun v _ => ?_⟩
  split
  · rfl
  · rfl

/-- The frame of a host address is its page number. -/
theorem pfra_ofNat {host : ℕ} (hlt : host < 2 ^ 64) :
    (pfra (BitVec.ofNat 64 host)).toNat = addrToPage host := by
  rw [pfra, BitVec.toNat_setWidth, BitVec.toNat_ushiftRight, BitVec.toNat_ofNat,
    Nat.shiftRight_eq_div_pow, addrToPage_eq, show pageShift = 12 from rfl]
  omega

/-- The pages of two guests. -/
theorem HostInv.alone {pages : Multiset ℕ} {h : Host} (hinv : HostInv pages h)
    (hnodup : pages.Nodup) {l₁ l₂ : List HostGuest} {g g' : HostGuest}
    (hg : h.guests = l₁ ++ g :: l₂) (hg' : g' ∈ l₁ ++ l₂) :
    g.storage.guestPages.Disjoint g'.storage.guestPages := by
  have hmem : ∀ g₁ ∈ h.guests, ∀ host ∈ g₁.storage.guestPages,
      (0, addrToPage host) ∈ g₁.storage.blocks := by
    intro g₁ hg₁ host hhost
    obtain ⟨mem, supply, hcall⟩ := hinv.calls g₁ hg₁
    have htaken := (fillGuestStorage_pages hcall (List.Sublist.refl _)).1
    exact List.mem_map.2 ⟨_, htaken.subset (List.mem_map_of_mem hhost), rfl⟩
  have hle : (g.storage.blocks ++ g'.storage.blocks : List Block) ≤
      (h.guests.flatMap fun g => g.storage.blocks : Multiset Block) := by
    have hperm : h.guests.Perm (g :: (l₁ ++ l₂)) := hg ▸ List.perm_middle
    rw [Multiset.coe_eq_coe.2 (hperm.flatMap_right _), List.flatMap_cons, ← Multiset.coe_add,
      ← Multiset.coe_add]
    exact Multiset.add_le_add_left (blocks_le hg')
  have hcross := (List.pairwise_append.1 (hinv.apart hnodup hle)).2.2
  intro host hhost hhost'
  have hg₁ : g' ∈ h.guests := by
    rw [hg, List.mem_append, List.mem_cons]
    rcases List.mem_append.1 hg' with hmem' | hmem'
    · exact Or.inl hmem'
    · exact Or.inr (Or.inr hmem')
  have hapart := hcross _ (hmem g (hg ▸ List.mem_append_right _ List.mem_cons_self) host hhost)
    _ (hmem g' hg₁ host hhost')
  dsimp only at hapart
  omega

/-- Two pages of one guest have different frames. -/
theorem HostInv.different {memsize start : BitVec 64} {h : Host}
    (hinv : HostInv (initPages memsize start) h) (hstart : pageSize ≤ start.toNat) {g : HostGuest}
    (hg : g ∈ h.guests) {p q : ℕ} (hpq : p < q) (hq : q < g.storage.guestPages.length) :
    pfra (BitVec.ofNat 64 g.storage.guestPages[p]) ≠
      pfra (BitVec.ofNat 64 g.storage.guestPages[q]) := by
  obtain ⟨mem, supply, hcall⟩ := hinv.calls g hg
  have htaken := (fillGuestStorage_pages hcall (List.Sublist.refl _)).1
  have hfresh := hinv.fresh hstart hg
  have hpairs := List.pairwise_map.1 (hfresh.disjoint.sublist htaken)
  have hapart := List.pairwise_iff_getElem.1 hpairs p q (hpq.trans hq) hq hpq
  have hpage : ∀ host ∈ g.storage.guestPages, host % 4096 = 0 ∧ host + 4096 ≤ 2 ^ 64 :=
    fun host hhost => (hfresh.page _ (htaken.subset (List.mem_map_of_mem hhost))).2
  obtain ⟨halign, hfits⟩ := hpage _ (List.getElem_mem (hpq.trans hq))
  obtain ⟨halign', hfits'⟩ := hpage _ (List.getElem_mem hq)
  intro heq
  have hframe := congrArg BitVec.toNat heq
  rw [pfra_ofNat (by omega), pfra_ofNat (by omega), addrToPage_eq, addrToPage_eq] at hframe
  rw [tableSize_zero] at hapart
  omega

/-- What is entered from 2GB on is not found there. -/
theorem HostGuest.not_fullyMapped {g : HostGuest} {others : List HostGuest}
    (hbig : 2 ^ 19 < g.pages) : ¬ g.FullyMapped others := by
  intro hmapped
  obtain ⟨host, -, hframe⟩ := hmapped.mapped (2 ^ 19) hbig
  have hout : g.frame (2 ^ 19) = none := by
    rw [HostGuest.frame, Dat.translate, if_neg (by decide)]
  rw [hout] at hframe
  cases hframe

/-- **With no tables before, guest storage is mapped exactly up to 2GB.**  Whatever guests
there are and whatever else was taken and given back: for a guest whose table pointers were
`NULL` and for which `alloc_guest_storage` returned 0, each guest page is mapped to a page
of `guest_pages` of its own, no other page is mapped and no page is another guest's, exactly
if the storage has at most `2^19` pages. -/
theorem fullyMapped_null_iff {memsize start : BitVec 64} (hinit : InitExact memsize start)
    (hstart : pageSize ≤ start.toNat) {evs : List HostEvent} {h : Host}
    (hrun : Run HostStep (.init memsize start) evs h) {l₁ l₂ : List HostGuest} {g : HostGuest}
    (hg : h.guests = l₁ ++ g :: l₂) (hnull : g.as = .null) (hret : g.ret = 0) :
    g.FullyMapped (l₁ ++ l₂) ↔ g.pages ≤ 2 ^ 19 := by
  have hinv := hostInv_run hinit hrun
  have hmem : g ∈ h.guests := hg ▸ List.mem_append_right _ List.mem_cons_self
  constructor
  · intro hmapped
    by_contra hbig
    exact HostGuest.not_fullyMapped (Nat.lt_of_not_le hbig) hmapped
  · intro hle
    obtain ⟨mem, supply, hcall⟩ := hinv.calls g hmem
    rw [hret, hnull] at hcall
    have hwalk := (fillGuestStorage_walk hle hcall (storageInv_init _ mem supply)
      (hinv.fresh hstart hmem)).walk
    have hlength : g.storage.guestPages.length = g.pages :=
      ((fillGuestStorage_pages hcall (List.Sublist.refl _)).2 rfl).trans (Nat.zero_add _)
    have htranslate : ∀ v : BitVec 64, v.toNat < 2 ^ 31 → g.storage.dat.translate v =
        g.storage.guestPages[(virtPage v).toNat]?.map fun p => pfra (BitVec.ofNat 64 p) := by
      intro v hv
      rw [Dat.translate, if_pos ((datRx_eq_zero_iff v).2 hv), hwalk v hv,
        if_neg (Nat.not_lt_zero _),
        Nat.sub_zero]
    have hframe : ∀ p (hp : p < g.storage.guestPages.length),
        g.frame p = some (pfra (BitVec.ofNat 64 g.storage.guestPages[p])) := by
      intro p hp
      have haddr : (guestAddr p).toNat = 4096 * p := guestAddr_toNat (by omega)
      have hpage : (virtPage (guestAddr p)).toNat = p := by
        rw [virtPage_toNat, haddr, Nat.mul_div_cancel_left _ (by decide)]
      have := htranslate (guestAddr p) (by omega)
      rwa [hpage, List.getElem?_eq_getElem hp] at this
    constructor
    case mapped =>
      intro p hp
      exact ⟨_, List.getElem_mem (hlength ▸ hp), hframe p (hlength ▸ hp)⟩
    case different =>
      intro p hp q hq hne
      rw [hframe p (hlength ▸ hp), hframe q (hlength ▸ hq)]
      intro heq
      rcases Nat.lt_or_gt_of_ne hne with hlt | hlt
      · exact hinv.different hstart hmem hlt (hlength ▸ hq) (Option.some.inj heq)
      · exact hinv.different hstart hmem hlt (hlength ▸ hp) (Option.some.inj heq).symm
    case only =>
      intro v hv
      by_cases hlow : v.toNat < 2 ^ 31
      · rw [htranslate v hlow, List.getElem?_eq_none (hlength ▸ hv)]
        rfl
      · exact if_neg ((datRx_eq_zero_iff v).not.2 hlow)
    case alone => exact fun g' hg' => hinv.alone (initPages_nodup memsize start) hg hg'

end Hvf
