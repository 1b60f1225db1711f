/-
# The small caches in every history

Objects of the seventh class lie on the bitmap of their page, so their callers
may change it.  The other six caches do not notice: `smallStore` is the allocator
without the pages of the seventh cache, and whatever `malloc`, `free` and the
callers do, it stays a sound slab allocator (`mallocStep_small`).
-/

import Hvf.Mm.Malloc

namespace Hvf

open StepRun

/-- The allocator without the seventh cache. -/
def smallStore (s : SlabStore (Fin 7)) : SlabStore (Fin 7) where
  hdr n := if n ∈ s.pages 6 then none else s.hdr n
  pages := Function.update s.pages 6 []
  mem := s.mem

/-- The objects that are not on pages of the seventh cache. -/
def smallLive (s : SlabStore (Fin 7)) (live : List (ℕ × ℤ)) : List ℕ :=
  (live.map Prod.fst).filter fun p => addrToPage p ∉ s.pages 6

/-- **The six small caches are sound, and the seventh keeps to its pages**, whatever it does
there. So no call for a large object disturbs a small one. -/
structure SmallInv (t : MallocState) : Prop where
  inv : SlabInv (smallStore t.store) (smallLive t.store t.live)
  created : ∀ c, t.store.pages c ≠ []
  layout : GenericPages t.store
  own : ∀ c ≠ 6, ∀ page ∈ t.store.pages c, page ∉ t.store.pages 6
  large : ∀ x ∈ t.live, addrToPage x.1 ∈ t.store.pages 6 →
    ∃ i < 3, x.1 = objAddr (addrToPage x.1) (genericLayout 6) i

variable {s s' : SlabStore (Fin 7)} {t u : MallocState} {page n : ℕ} {c : Fin 7}

/-- Without the 1024 byte cache the other pages have their headers. -/
theorem smallStore_hdr (h : n ∉ s.pages 6) : (smallStore s).hdr n = s.hdr n := if_neg h

/-- Without it its pages have none. -/
theorem smallStore_hdr_six (h : n ∈ s.pages 6) : (smallStore s).hdr n = none := if_pos h

/-- Without it, it has no page. -/
theorem smallStore_pages_six : (smallStore s).pages 6 = [] := by
  simp [smallStore]

/-- The other caches have their pages. -/
theorem smallStore_pages (hc : c ≠ 6) : (smallStore s).pages c = s.pages c :=
  Function.update_of_ne hc ..

/-- The same headers and pages are the same store, up to the bytes. -/
theorem smallStore_eq (hhdr : (smallStore s').hdr = (smallStore s).hdr)
    (hpages : (smallStore s').pages = (smallStore s).pages) :
    smallStore s' = { smallStore s with mem := s'.mem } := by
  have h : smallStore s' = ⟨(smallStore s').hdr, (smallStore s').pages, s'.mem⟩ := rfl
  rw [h, hhdr, hpages]

/-! ### The operations on the small caches -/

/-- Taking an object from a page of another cache is the same with or without it. -/
theorem takeObj_smallStore (h : page ∉ s.pages 6) :
    takeObj page (smallStore s) = (takeObj page s).map fun r => (r.1, smallStore r.2) := by
  rw [takeObj, takeObj, smallStore_hdr h]
  cases hslab : s.hdr page with
  | none => rfl
  | some slab =>
    simp only [Option.bind_eq_bind, Option.bind_some]
    have hmem : (smallStore s).mem = s.mem := rfl
    rw [hmem]
    cases Bitmap.firstClear s.mem (bitmapAddr page) slab.count with
    | none => rfl
    | some i =>
      simp only [Option.pure_def, Option.map_some, Option.some_inj, Prod.mk.injEq, true_and]
      rw [smallStore, smallStore]
      congr 1
      funext m
      rcases eq_or_ne m page with rfl | hne
      · simp [h]
      · simp [Function.update_of_ne hne]

/-- So is whether the page may serve. -/
theorem eligible_smallStore (type : Zone) (h : page ∉ s.pages 6) :
    eligible (smallStore s) type page = eligible s type page := by
  rw [eligible, eligible, smallStore_hdr h]

/-- **A small cache allocates** as if the seventh one were not there. -/
theorem allocSlabObj_smallStore (hc : c ≠ 6) (hown : ∀ page ∈ s.pages c, page ∉ s.pages 6)
    (type : Zone) {newpage : Option ℕ} (hnew : ∀ n, newpage = some n → n ∉ s.pages 6) :
    allocSlabObj c type newpage (smallStore s)
      = (allocSlabObj c type newpage s).map fun r => (r.1, smallStore r.2) := by
  rw [allocSlabObj, allocSlabObj, smallStore_pages hc]
  cases hpages : s.pages c with
  | nil => rfl
  | cons passed rest =>
    have hpassed : passed ∉ s.pages 6 := hown _ (by rw [hpages]; exact List.mem_cons_self ..)
    have hfind : (passed :: rest).find? (eligible (smallStore s) type)
        = (passed :: rest).find? (eligible s type) := by
      refine List.find?_congr fun n hn => eligible_smallStore type (hown n ?_)
      rwa [hpages]
    simp only [smallStore_hdr hpassed, hfind]
    cases s.hdr passed with
    | none => rfl
    | some slab =>
      simp only [Option.bind_eq_bind, Option.bind_some]
      split_ifs with hmagic
      · rfl
      · cases hfound : (passed :: rest).find? (eligible s type) with
        | some page =>
          have hmem := List.mem_of_find?_eq_some hfound
          exact takeObj_smallStore (hown _ (by rwa [hpages]))
        | none =>
          cases newpage with
          | none => rfl
          | some page =>
            have hpage := hnew page rfl
            have hstore : _allocSlabObjNewpage c slab page (smallStore s)
                = smallStore (_allocSlabObjNewpage c slab page s) := by
              have hsix : (_allocSlabObjNewpage c slab page s).pages 6 = s.pages 6 :=
                Function.update_of_ne hc.symm ..
              rw [smallStore, smallStore, hsix]
              simp only [_allocSlabObjNewpage, Function.update_of_ne hc, SlabStore.mk.injEq,
                and_true]
              refine ⟨funext fun m => ?_, (Function.update_comm hc.symm ..)⟩
              rcases eq_or_ne m page with rfl | hne
              · simp [hpage]
              · simp [Function.update_of_ne hne]
            dsimp only
            rw [hstore]
            refine takeObj_smallStore ?_
            rwa [show (_allocSlabObjNewpage c slab page s).pages 6 = s.pages 6 from
              Function.update_of_ne hc.symm ..]

/-! ### What an allocation changes -/

/-- A header of a sound layout is sound. -/
theorem Slab.SameLayout.sound {h h' : Slab} (hsame : h.SameLayout h') (hsound : h'.Sound) :
    h.Sound := by
  obtain ⟨hsize, hoff, hcount⟩ := hsame
  obtain ⟨h₁, h₂, h₃, h₄⟩ := hsound
  exact ⟨hsize ▸ h₁, hcount ▸ h₂, hoff ▸ h₃, by rwa [hoff, hcount, hsize]⟩

/-- The layouts of the seven caches are sound. -/
theorem genericLayout_sound (c : Fin 7) : (genericLayout c).Sound :=
  (genericArgs_slabArgs c).sound

/-- A page of a cache has a header. -/
theorem GenericPages.hdr_ne_none (h : GenericPages s) (hn : n ∈ s.pages c) : s.hdr n ≠ none := by
  obtain ⟨slab, hslab, -⟩ := h c n hn
  rw [hslab]
  exact Option.some_ne_none _

/-- **What an allocation from the cache `c` changes**, whatever the bitmaps hold:
the header and the bitmap of a page of the cache, which may be new, and `r` is one
of its objects. -/
structure SlabAllocated (c : Fin 7) (newpage : Option ℕ) (s : SlabStore (Fin 7)) (r : Option ℕ)
    (s' : SlabStore (Fin 7)) : Prop where
  layout : GenericPages s'
  others : ∀ c' ≠ c, s'.pages c' = s.pages c'
  pages : s'.pages c = s.pages c ∨ ∃ n, newpage = some n ∧ s'.pages c = s.pages c ++ [n]
  hdr : ∀ n, n ∉ s'.pages c → s'.hdr n = s.hdr n
  mem : ∀ a, addrToPage a ∉ s'.pages c → s'.mem a = s.mem a
  frame : ∀ a, (s.hdr (addrToPage a)).isSome → inBook s a = false → s'.mem a = s.mem a
  cleared : ∀ a, s.hdr (addrToPage a) = none → addrToPage a ∈ s'.pages c → inBook s' a = false →
    s'.mem a = 0
  object : ∀ p ∈ r, addrToPage p ∈ s'.pages c ∧
    ∃ i < (genericLayout c).count, p = objAddr (addrToPage p) (genericLayout c) i

/-- **What taking an object does**, in the words of the allocation. -/
theorem takeObj_allocated {r : Option ℕ} (hlayout : GenericPages s)
    (hpage : page ∈ s.pages c) (h : takeObj page s = some (r, s')) :
    SlabAllocated c none s r s' := by
  obtain ⟨slab, hslab, hsame⟩ := hlayout c page hpage
  have hsound := hsame.sound (genericLayout_sound c)
  rw [takeObj, hslab] at h
  simp only [Option.bind_eq_bind, Option.bind_some] at h
  cases hfirst : Bitmap.firstClear s.mem (bitmapAddr page) slab.count with
  | none =>
    rw [hfirst] at h
    obtain ⟨rfl, rfl⟩ := Prod.mk.inj (Option.some.inj h)
    exact ⟨hlayout, fun _ _ => rfl, Or.inl rfl, fun _ _ => rfl, fun _ _ => rfl, fun _ _ _ => rfl,
      fun a ha hmem => absurd ha (hlayout.hdr_ne_none hmem),
      fun p hp => absurd hp.symm (Option.some_ne_none p)⟩
  | some i =>
    rw [hfirst] at h
    obtain ⟨rfl, rfl⟩ := Prod.mk.inj (Option.some.inj h)
    have hi := (Bitmap.firstClear_eq_some hfirst).1
    have hplace : addrToPage (bitmapAddr page + i / 8) = page :=
      hsound.addrToPage_bitmap (by omega)
    have haddr : addrToPage (objAddr page slab i) = page := hsound.addrToPage_objAddr hi
    refine ⟨fun c' n hn => ?_, fun _ _ => rfl, Or.inl rfl, fun n hn => ?_, fun a ha => ?_,
      fun a _ ha => ?_, fun a ha hmem => absurd ha (hlayout.hdr_ne_none hmem), fun p hp => ?_⟩
    · obtain ⟨old, hold, hgeneric⟩ := hlayout c' n hn
      rcases eq_or_ne n page with rfl | hne
      · obtain rfl : slab = old := Option.some.inj (hslab.symm.trans hold)
        exact ⟨_, Function.update_self .., hgeneric⟩
      · exact ⟨old, by rw [← hold]; exact Function.update_of_ne hne .., hgeneric⟩
    · refine Function.update_of_ne ?_ ..
      rintro rfl
      exact hn hpage
    · refine Bitmap.set_of_ne fun heq => ha ?_
      rwa [heq, hplace]
    · refine Bitmap.set_of_ne fun heq => ?_
      unfold inBook at ha
      rw [heq, hplace, hslab] at ha
      exact of_decide_eq_false ha (by omega)
    · obtain rfl := Option.some.inj hp
      rw [haddr]
      refine ⟨hpage, i, hsame.2.2 ▸ hi, ?_⟩
      rw [objAddr, objAddr, hsame.1, hsame.2.1]

/-- **`alloc_slab_obj` keeps to its cache.** -/
theorem allocSlabObj_allocated {type : Zone} {newpage r : Option ℕ} (hlayout : GenericPages s)
    (hfresh : freshPage s newpage = true)
    (h : allocSlabObj c type newpage s = some (r, s')) : SlabAllocated c newpage s r s' := by
  have hnothing : SlabAllocated c newpage s none s :=
    ⟨hlayout, fun _ _ => rfl, Or.inl rfl, fun _ _ => rfl, fun _ _ => rfl, fun _ _ _ => rfl,
      fun a ha hmem => absurd ha (hlayout.hdr_ne_none hmem),
      fun p hp => absurd hp.symm (Option.some_ne_none p)⟩
  rw [allocSlabObj] at h
  split at h
  · obtain ⟨rfl, rfl⟩ := Prod.mk.inj (Option.some.inj h)
    exact hnothing
  · rename_i passed rest hpages
    have hpassed : passed ∈ s.pages c := by
      rw [hpages]
      exact List.mem_cons_self ..
    obtain ⟨slab, hslab, hsame⟩ := hlayout c passed hpassed
    simp only [hslab, Option.bind_eq_bind, Option.bind_some] at h
    split_ifs at h
    split at h
    · rename_i page hfind
      have hin := List.mem_of_find?_eq_some hfind
      have hold := takeObj_allocated hlayout hin h
      exact ⟨hold.layout, hold.others, Or.inl (hold.pages.resolve_right (by simp)), hold.hdr,
        hold.mem, hold.frame, hold.cleared, hold.object⟩
    · cases newpage with
      | none =>
        obtain ⟨rfl, rfl⟩ := Prod.mk.inj (Option.some.inj h)
        exact hnothing
      | some page =>
        have hunused : s.hdr page = none := by simpa [freshPage] using hfresh
        have hmem : page ∈ (_allocSlabObjNewpage c slab page s).pages c := by
          simp [_allocSlabObjNewpage]
        have hpages' : ∀ c' n, n ∈ (_allocSlabObjNewpage c slab page s).pages c' →
            n ≠ page → n ∈ s.pages c' := by
          intro c' n hn hne
          rcases eq_or_ne c' c with rfl | hc
          · simpa [_allocSlabObjNewpage, hne] using hn
          · simpa [_allocSlabObjNewpage, hc] using hn
        have hadded : GenericPages (_allocSlabObjNewpage c slab page s) := by
          intro c' n hn
          rcases eq_or_ne n page with rfl | hne
          · refine ⟨_, Function.update_self .., ?_⟩
            rcases eq_or_ne c' c with rfl | hc
            · exact hsame
            · have hn : n ∈ s.pages c' := by simpa [_allocSlabObjNewpage, hc] using hn
              exact absurd hunused (hlayout.hdr_ne_none hn)
          · obtain ⟨old, hold, hgeneric⟩ := hlayout c' n (hpages' c' n hn hne)
            exact ⟨old, by rw [← hold]; exact Function.update_of_ne hne .., hgeneric⟩
        have hnew := takeObj_allocated hadded hmem h
        have hlist : s'.pages c = s.pages c ++ [page] :=
          (hnew.pages.resolve_right (by simp)).trans (Function.update_self ..)
        have hlast : page ∈ s'.pages c := by simp [hlist]
        refine ⟨hnew.layout, fun c' hc => (hnew.others c' hc).trans (Function.update_of_ne hc ..),
          Or.inr ⟨page, rfl, hlist⟩, fun n hn => ?_, fun a ha => ?_, fun a hsome hbook => ?_,
          fun a hnone hmem' hbook => ?_, hnew.object⟩
        · rw [hnew.hdr n hn]
          refine Function.update_of_ne ?_ ..
          rintro rfl
          exact hn hlast
        · rw [hnew.mem a ha]
          refine if_neg ?_
          rintro rfl
          exact ha hlast
        · have hne : addrToPage a ≠ page := by
            rintro rfl
            rw [hunused] at hsome
            cases hsome
          have hhdr : (_allocSlabObjNewpage c slab page s).hdr (addrToPage a)
              = s.hdr (addrToPage a) := Function.update_of_ne hne ..
          rw [hnew.frame a (by rwa [hhdr]) (by unfold inBook at hbook ⊢; rwa [hhdr])]
          exact if_neg hne
        · have heq : addrToPage a = page := by
            rw [hlist, List.mem_append, List.mem_singleton] at hmem'
            exact hmem'.resolve_left fun hold => hlayout.hdr_ne_none hold hnone
          have hhdr : (_allocSlabObjNewpage c slab page s).hdr (addrToPage a)
              = some { slab with magic := .cont, used := 0 } := by
            rw [heq]
            exact Function.update_self ..
          -- the header that is left has the same number of objects
          obtain ⟨old, hold, hgeneric⟩ := hnew.layout c _ hmem'
          have hcount : old.count = slab.count := hgeneric.2.2.trans hsame.2.2.symm
          rw [hnew.frame a (by rw [hhdr]; rfl)]
          · exact if_pos heq
          · unfold inBook at hbook ⊢
            rw [hold] at hbook
            rw [hhdr]
            rwa [← hcount]

/-! ### Live objects -/

/-- An object of the other caches is a live one whose page is not the big cache's. -/
theorem mem_smallLive {live : List (ℕ × ℤ)} {p : ℕ} :
    p ∈ smallLive s live ↔ p ∈ live.map Prod.fst ∧ addrToPage p ∉ s.pages 6 := by
  simp [smallLive]

/-- These objects depend on which pages are the big cache's. -/
theorem smallLive_congr {live : List (ℕ × ℤ)}
    (h : ∀ x ∈ live, (addrToPage x.1 ∈ s'.pages 6 ↔ addrToPage x.1 ∈ s.pages 6)) :
    smallLive s' live = smallLive s live := by
  refine List.filter_congr fun p hp => ?_
  obtain ⟨x, hx, rfl⟩ := List.mem_map.1 hp
  simp [h x hx]

/-- A release takes that object out. -/
theorem smallLive_eraseP (s : SlabStore (Fin 7)) (live : List (ℕ × ℤ)) (p : ℕ) :
    smallLive s (live.eraseP fun x => p == x.1) = (smallLive s live).erase p := by
  rw [smallLive, smallLive, List.erase_filter, List.erase_eq_eraseP, List.eraseP_map]
  rfl

/-- **A live object off the seventh cache** is object `i` of a page of another. -/
theorem SmallInv.object_page (hinv : SmallInv t) {x : ℕ × ℤ} (hx : x ∈ t.live)
    (hsmall : addrToPage x.1 ∉ t.store.pages 6) :
    ∃ c ≠ 6, addrToPage x.1 ∈ t.store.pages c ∧ ∃ slab i,
      t.store.hdr (addrToPage x.1) = some slab ∧ slab.SameLayout (genericLayout c) ∧
      i < slab.count ∧ x.1 = objAddr (addrToPage x.1) slab i := by
  obtain ⟨slab, i, hslab, hi, hobj⟩ :=
    hinv.inv.object_page (mem_smallLive.2 ⟨List.mem_map_of_mem hx, hsmall⟩)
  obtain ⟨c, hc⟩ := (hinv.inv.held _).1 ⟨slab, hslab⟩
  have hne : c ≠ 6 := by
    rintro rfl
    rw [smallStore_pages_six] at hc
    exact absurd hc List.not_mem_nil
  rw [smallStore_pages hne] at hc
  rw [smallStore_hdr hsmall] at hslab
  obtain ⟨h, hh, hlayout⟩ := hinv.layout c _ hc
  obtain rfl : slab = h := Option.some.inj (hslab.symm.trans hh)
  exact ⟨c, hne, hc, slab, i, hslab, hlayout, hi, hobj⟩

/-- **A live object** is object `i` of its page. -/
theorem SmallInv.place (hinv : SmallInv t) {x : ℕ × ℤ} (hx : x ∈ t.live) :
    ∃ slab i, t.store.hdr (addrToPage x.1) = some slab ∧ slab.Sound ∧ i < slab.count ∧
      x.1 = objAddr (addrToPage x.1) slab i := by
  by_cases hlarge : addrToPage x.1 ∈ t.store.pages 6
  · obtain ⟨slab, hslab, hsame⟩ := hinv.layout 6 _ hlarge
    obtain ⟨i, hi, hobj⟩ := hinv.large x hx hlarge
    refine ⟨slab, i, hslab, hsame.sound (genericLayout_sound 6), ?_, ?_⟩
    · rw [hsame.2.2, genericLayout_large.2.2]
      exact hi
    · rw [objAddr, hsame.1, hsame.2.1]
      exact hobj
  · obtain ⟨c, -, -, slab, i, hslab, hsame, hi, hobj⟩ := hinv.object_page hx hlarge
    exact ⟨slab, i, hslab, hsame.sound (genericLayout_sound c), hi, hobj⟩

/-- No live object is at address 0. -/
theorem SmallInv.ne_zero (hinv : SmallInv t) {x : ℕ × ℤ} (hx : x ∈ t.live) : x.1 ≠ 0 := by
  obtain ⟨slab, i, -, hsound, -, hobj⟩ := hinv.place hx
  have hbehind := hsound.behind
  rw [objAddr] at hobj
  rw [sizeofSlab] at hbehind
  omega

/-- The bytes of a live object are on its page. -/
theorem SmallInv.same_page (hinv : SmallInv t) {x : ℕ × ℤ} (hx : x ∈ t.live) {a : ℕ}
    (ha : inObject t.store x.1 a) : addrToPage a = addrToPage x.1 := by
  obtain ⟨slab, i, hslab, hsound, hi, hobj⟩ := hinv.place hx
  obtain ⟨hle, hlt⟩ := ha
  have hin := hsound.mul_le hi
  rw [allocsize, hslab, Option.map_some, Option.getD_some] at hlt
  rw [objAddr, pageToAddr_eq] at hobj
  rw [pageSize_eq] at hin
  rw [addrToPage_eq a]
  omega

/-- The bytes of a small object are off the bitmaps. -/
theorem SmallInv.off_book (hinv : SmallInv t) {x : ℕ × ℤ} (hx : x ∈ t.live) {a : ℕ}
    (ha : inObject t.store x.1 a) : inBook (smallStore t.store) a = false := by
  have hpage := hinv.same_page hx ha
  unfold inBook
  rw [hpage]
  by_cases hlarge : addrToPage x.1 ∈ t.store.pages 6
  · rw [smallStore_hdr_six hlarge]
  · obtain ⟨c, hc, -, slab, i, hslab, hsame, -, hobj⟩ := hinv.object_page hx hlarge
    have hbehind := genericLayout_behind hc
    rw [← hsame.2.1, ← hsame.2.2] at hbehind
    have hle : x.1 ≤ a := ha.1
    rw [smallStore_hdr hlarge, hslab]
    rw [objAddr] at hobj
    refine decide_eq_false ?_
    rw [bitmapAddr]
    omega

/-! ### Steps -/

/-- **An allocation keeps the other caches' invariant**, whatever its size. -/
theorem mallocStep_small_malloc {size : ℤ} {type : Zone} {newpage : Option ℕ} (hinv : SmallInv t)
    (hstep : mallocStep t (.malloc size type newpage) = some u) : SmallInv u := by
  simp only [mallocStep] at hstep
  split_ifs at hstep with hcond
  obtain ⟨hpos, hmax, hfresh⟩ := hcond
  obtain ⟨⟨r, s'⟩, hmalloc, rfl⟩ := Option.map_eq_some_iff.1 hstep
  obtain ⟨c, heq, -, -⟩ := malloc_eq hpos hmax type newpage t.store
  rw [heq] at hmalloc
  have halloc := allocSlabObj_allocated hinv.layout hfresh hmalloc
  have hnew : ∀ n, newpage = some n → t.store.hdr n = none := by
    rintro n rfl
    simpa [freshPage] using hfresh
  have hnew6 : ∀ n, newpage = some n → ∀ c, n ∉ t.store.pages c := by
    intro n hn c hmem
    exact hinv.layout.hdr_ne_none hmem (hnew n hn)
  have hcreated : ∀ c', s'.pages c' ≠ [] := by
    intro c' hnil
    rcases eq_or_ne c' c with rfl | hc'
    · rcases halloc.pages with h | ⟨n, -, h⟩
      · exact hinv.created c' (h.symm.trans hnil)
      · rw [hnil] at h
        exact absurd h.symm (by simp)
    · exact hinv.created c' ((halloc.others c' hc').symm.trans hnil)
  by_cases hc : c = 6
  · subst hc
    have hgrown : ∀ n, n ∈ s'.pages 6 ↔
        n ∈ t.store.pages 6 ∨ n ∈ s'.pages 6 ∧ newpage = some n := by
      intro n
      rcases halloc.pages with h | ⟨m, hm, h⟩
      · rw [h]
        tauto
      · rw [h, List.mem_append, List.mem_singleton, hm, Option.some_inj, eq_comm (a := m)]
        tauto
    have hold : ∀ n, (t.store.hdr n).isSome → (n ∈ s'.pages 6 ↔ n ∈ t.store.pages 6) := by
      intro n hsome
      rw [hgrown]
      refine or_iff_left ?_
      rintro ⟨-, hn⟩
      rw [hnew n hn] at hsome
      cases hsome
    have hstore : smallStore s' = { smallStore t.store with mem := s'.mem } := by
      refine smallStore_eq (funext fun n => ?_) (funext fun c' => ?_)
      · by_cases hn : n ∈ s'.pages 6
        · rw [smallStore_hdr_six hn]
          rcases (hgrown n).1 hn with hn' | ⟨-, hn'⟩
          · rw [smallStore_hdr_six hn']
          · rw [smallStore_hdr (hnew6 n hn' 6), hnew n hn']
        · rw [smallStore_hdr hn, smallStore_hdr fun hn' => hn ((hgrown n).2 (Or.inl hn')),
            halloc.hdr n hn]
      · rcases eq_or_ne c' 6 with rfl | hc'
        · rw [smallStore_pages_six, smallStore_pages_six]
        · rw [smallStore_pages hc', smallStore_pages hc', halloc.others c' hc']
    have hlive : smallLive s' ((r.map fun ptr => (ptr, size)).toList ++ t.live)
        = smallLive t.store t.live := by
      rw [smallLive, List.map_append, List.filter_append]
      have hnone : ((r.map fun ptr => (ptr, size)).toList.map Prod.fst).filter
          (fun p => addrToPage p ∉ s'.pages 6) = [] := by
        cases r with
        | none => rfl
        | some p => simp [(halloc.object p rfl).1]
      rw [hnone, List.nil_append]
      refine smallLive_congr fun x hx => hold _ ?_
      obtain ⟨slab, -, hslab, -⟩ := hinv.place hx
      rw [hslab]
      rfl
    refine ⟨?_, hcreated, halloc.layout, fun c' hc' page hpage => ?_, fun x hx hlarge => ?_⟩
    · rw [hstore]
      dsimp only
      rw [hlive]
      refine hinv.inv.mem_congr fun a ha => halloc.mem a fun hmem => ?_
      unfold inBook at ha
      by_cases hn : addrToPage a ∈ t.store.pages 6
      · rw [smallStore_hdr_six hn] at ha
        cases ha
      · rw [smallStore_hdr hn] at ha
        rcases (hgrown _).1 hmem with hn' | ⟨-, hn'⟩
        · exact hn hn'
        · rw [hnew _ hn'] at ha
          cases ha
    · rw [halloc.others c' hc'] at hpage
      rw [hgrown]
      rintro (hn | ⟨-, hn⟩)
      · exact hinv.own c' hc' page hpage hn
      · exact hnew6 page hn c' hpage
    · rcases List.mem_append.1 hx with hx | hx
      · cases r with
        | none => exact absurd hx List.not_mem_nil
        | some p =>
          obtain rfl : x = (p, size) := by simpa using hx
          obtain ⟨-, i, hi, hobj⟩ := halloc.object p rfl
          exact ⟨i, by rwa [genericLayout_large.2.2] at hi, hobj⟩
      · obtain ⟨slab, -, hslab, -⟩ := hinv.place hx
        exact hinv.large x hx ((hold _ (by rw [hslab]; rfl)).1 hlarge)
  · have hsix : s'.pages 6 = t.store.pages 6 := halloc.others 6 (Ne.symm hc)
    have hproj := allocSlabObj_smallStore hc (hinv.own c hc) type fun n hn => hnew6 n hn 6
    rw [hmalloc, Option.map_some] at hproj
    have hown : ∀ c' ≠ 6, ∀ page ∈ s'.pages c', page ∉ s'.pages 6 := by
      intro c' hc' page hpage
      rw [hsix]
      rcases eq_or_ne c' c with rfl | hne
      · rcases halloc.pages with h | ⟨n, hn, h⟩
        · exact hinv.own c' hc' page (h ▸ hpage)
        · rw [h, List.mem_append, List.mem_singleton] at hpage
          rcases hpage with hpage | rfl
          · exact hinv.own c' hc' page hpage
          · exact hnew6 page hn 6
      · rw [halloc.others c' hne] at hpage
        exact hinv.own c' hc' page hpage
    have hsame : smallLive s' t.live = smallLive t.store t.live :=
      smallLive_congr fun x _ => by rw [hsix]
    have hfresh' : freshPage (smallStore t.store) newpage = true := by
      cases newpage with
      | none => rfl
      | some n => simp [freshPage, smallStore, hnew n rfl]
    have hpages : (smallStore t.store).pages c ≠ [] := by
      rw [smallStore_pages hc]
      exact hinv.created c
    have hobject : ∀ p ∈ r, addrToPage p ∉ s'.pages 6 :=
      fun p hp => hown c hc _ (halloc.object p hp).1
    refine ⟨?_, hcreated, halloc.layout, hown, fun x hx hlarge => ?_⟩
    · rcases hinv.inv.alloc type hpages hfresh' with
        ⟨-, hnull⟩ | ⟨-, page, slab, i, s'', hobj, htaken⟩
      · obtain ⟨rfl, hstore⟩ := Prod.mk.inj (Option.some.inj (hproj.symm.trans hnull))
        rw [hstore]
        exact hsame ▸ hinv.inv
      · obtain ⟨rfl, hstore⟩ := Prod.mk.inj (Option.some.inj (hproj.symm.trans hobj))
        have hlive : smallLive s' ([(objAddr page slab i, size)] ++ t.live)
            = objAddr page slab i :: smallLive t.store t.live := by
          rw [← hsame, smallLive, smallLive, List.map_append, List.filter_append]
          simp [hobject _ rfl]
        rw [hstore]
        exact hlive ▸ htaken.inv
    · rcases List.mem_append.1 hx with hx | hx
      · cases r with
        | none => exact absurd hx List.not_mem_nil
        | some p =>
          have hx : x = (p, size) := by simpa using hx
          rw [hx] at hlarge
          exact absurd hlarge (hobject p rfl)
      · rw [hsix] at hlarge
        exact hinv.large x hx hlarge

/-- A release in another cache is the same with or without the big one. -/
theorem freeSlabObj_smallStore {p : ℕ} (h : addrToPage p ∉ s.pages 6) :
    freeSlabObj p (smallStore s) = (freeSlabObj p s).map smallStore := by
  rw [freeSlabObj, freeSlabObj, smallStore_hdr h]
  cases s.hdr (addrToPage p) with
  | none => rfl
  | some slab =>
    simp only [Option.bind_eq_bind, Option.bind_some, Option.pure_def, Option.map_some,
      Option.some_inj]
    rw [smallStore, smallStore, SlabStore.mk.injEq]
    refine ⟨funext fun m => ?_, rfl, rfl⟩
    rcases eq_or_ne m (addrToPage p) with rfl | hne
    · simp [h]
    · simp [Function.update_of_ne hne]

/-- What a `free` changes: the header and the bitmap of the page. -/
theorem freeSlabObj_layout {p : ℕ} (hlayout : GenericPages s) (h : freeSlabObj p s = some s') :
    GenericPages s' ∧ s'.pages = s.pages ∧ (∀ n, n ≠ addrToPage p → s'.hdr n = s.hdr n) := by
  rw [freeSlabObj] at h
  cases hslab : s.hdr (addrToPage p) with
  | none =>
    rw [hslab] at h
    cases h
  | some slab =>
    simp only [hslab, Option.bind_eq_bind, Option.bind_some, Option.pure_def,
      Option.some_inj] at h
    generalize (slab.used + (2 ^ 16 - 1)) % 2 ^ 16 = used at h
    subst h
    refine ⟨fun c n hn => ?_, rfl, fun n hn => Function.update_of_ne hn ..⟩
    obtain ⟨old, hold, hgeneric⟩ := hlayout c n hn
    rcases eq_or_ne n (addrToPage p) with rfl | hne
    · obtain rfl : slab = old := Option.some.inj (hslab.symm.trans hold)
      exact ⟨_, Function.update_self .., hgeneric⟩
    · exact ⟨old, by rw [← hold]; exact Function.update_of_ne hne .., hgeneric⟩

/-- A `free` of a live object stores on the bitmap of its page only. -/
theorem SmallInv.free_mem (hinv : SmallInv t) {x : ℕ × ℤ} (hx : x ∈ t.live)
    (h : freeSlabObj x.1 t.store = some s') {a : ℕ}
    (ha : addrToPage a ≠ addrToPage x.1 ∨ inBook t.store a = false) :
    s'.mem a = t.store.mem a := by
  obtain ⟨slab, i, hslab, hsound, hi, hobj⟩ := hinv.place hx
  rw [freeSlabObj, hslab] at h
  simp only [Option.bind_eq_bind, Option.bind_some, Option.pure_def, Option.some_inj] at h
  have hidx : (x.1 - pageToAddr (addrToPage x.1) - slab.startoff) / slab.objsize = i := by
    conv_lhs => rw [hobj]
    rw [hsound.addrToPage_objAddr hi, hsound.objidx]
  have hplace : addrToPage (bitmapAddr (addrToPage x.1) + i / 8) = addrToPage x.1 :=
    hsound.addrToPage_bitmap (by omega)
  rw [hidx] at h
  subst h
  refine Bitmap.clear_of_ne ?_
  rintro rfl
  rcases ha with ha | ha
  · exact ha hplace
  · unfold inBook at ha
    rw [hplace, hslab] at ha
    exact of_decide_eq_false ha (by omega)

/-- A release keeps the other caches' invariant. -/
theorem mallocStep_small_free {p : ℕ} (hinv : SmallInv t)
    (hstep : mallocStep t (.free p) = some u) : SmallInv u := by
  simp only [mallocStep] at hstep
  split_ifs at hstep with hlive
  obtain ⟨s', hfree, rfl⟩ := Option.map_eq_some_iff.1 hstep
  obtain ⟨x, hx, rfl⟩ := List.mem_map.1 hlive
  rw [free, if_pos (hinv.ne_zero hx)] at hfree
  obtain ⟨hlayout, hpages, hhdr⟩ := freeSlabObj_layout hinv.layout hfree
  have hlive' : smallLive s' (t.live.eraseP fun y => x.1 == y.1)
      = (smallLive t.store t.live).erase x.1 := by
    rw [smallLive_eraseP, smallLive, smallLive, hpages]
  refine ⟨?_, fun c => by rw [hpages]; exact hinv.created c, hlayout,
    fun c hc page hpage => ?_, fun y hy hlarge => ?_⟩
  · dsimp only
    rw [hlive']
    by_cases hlarge : addrToPage x.1 ∈ t.store.pages 6
    · have hnot : x.1 ∉ smallLive t.store t.live := fun hmem => (mem_smallLive.1 hmem).2 hlarge
      have hstore : smallStore s' = { smallStore t.store with mem := s'.mem } := by
        refine smallStore_eq (funext fun n => ?_) (by rw [smallStore, smallStore, hpages])
        by_cases hn : n ∈ t.store.pages 6
        · rw [smallStore_hdr_six hn, smallStore_hdr_six (by rwa [hpages])]
        · rw [smallStore_hdr hn, smallStore_hdr (by rwa [hpages]), hhdr]
          rintro rfl
          exact hn hlarge
      rw [List.erase_of_not_mem hnot, hstore]
      refine hinv.inv.mem_congr fun a ha => hinv.free_mem hx hfree (Or.inl ?_)
      intro heq
      unfold inBook at ha
      rw [heq, smallStore_hdr_six hlarge] at ha
      cases ha
    · obtain ⟨-, -, -, -, -, s'', hfree', -, -, -, hinv'⟩ :=
        hinv.inv.free (mem_smallLive.2 ⟨List.mem_map_of_mem hx, hlarge⟩)
      rw [freeSlabObj_smallStore hlarge, hfree, Option.map_some, Option.some_inj] at hfree'
      rwa [hfree']
  · dsimp only at hpage ⊢
    rw [hpages] at hpage ⊢
    exact hinv.own c hc page hpage
  · dsimp only at hlarge
    rw [hpages] at hlarge
    exact hinv.large y (List.mem_of_mem_eraseP hy) hlarge

/-- A store by the program keeps it. -/
theorem mallocStep_small_write {a : ℕ} {v : BitVec 8} (hinv : SmallInv t)
    (hstep : mallocStep t (.write a v) = some u) : SmallInv u := by
  simp only [mallocStep] at hstep
  split_ifs at hstep with hlive
  obtain rfl := Option.some.inj hstep
  obtain ⟨x, hx, ha⟩ := hlive
  exact ⟨hinv.inv.write (hinv.off_book hx ha) v, hinv.created, hinv.layout, hinv.own, hinv.large⟩

/-- So every event keeps it. -/
theorem mallocStep_small {e : MallocEvent} (hinv : SmallInv t) (hstep : mallocStep t e = some u) :
    SmallInv u := by
  cases e with
  | malloc size type page => exact mallocStep_small_malloc hinv hstep
  | free p => exact mallocStep_small_free hinv hstep
  | write a v => exact mallocStep_small_write hinv hstep

/-- It depends on the bytes of the book-keeping only. -/
theorem SmallInv.mem_congr (hinv : SmallInv t) {m : Bitmap.Mem}
    (hmem : ∀ a, inBook (smallStore t.store) a = true → m a = t.store.mem a) :
    SmallInv { t with store := { t.store with mem := m } } :=
  ⟨hinv.inv.mem_congr hmem, hinv.created, hinv.layout, hinv.own, hinv.large⟩

/-- Behind `init_slab` it holds, with nothing live. -/
theorem SmallInv.init {page : Fin 7 → Option ℕ} (h : Created page (List.finRange 7) s) :
    SmallInv ⟨s, []⟩ := by
  have hown : ∀ c ≠ 6, ∀ n ∈ s.pages c, n ∉ s.pages 6 :=
    fun c hc n hn hsix => hc (h.inv.owner c 6 n hn hsix)
  have hhdr : ∀ {n slab}, (smallStore s).hdr n = some slab →
      n ∉ s.pages 6 ∧ s.hdr n = some slab := by
    intro n slab hn
    by_cases hsix : n ∈ s.pages 6
    · rw [smallStore_hdr_six hsix] at hn
      exact nomatch hn
    · exact ⟨hsix, by rwa [smallStore_hdr hsix] at hn⟩
  have hpages : ∀ {c n}, n ∈ (smallStore s).pages c → c ≠ 6 ∧ n ∈ s.pages c := by
    intro c n hn
    rcases eq_or_ne c 6 with rfl | hc
    · rw [smallStore_pages_six] at hn
      exact absurd hn List.not_mem_nil
    · exact ⟨hc, by rwa [smallStore_pages hc] at hn⟩
  refine ⟨⟨fun n slab hn => ?_, fun p hp => absurd hp List.not_mem_nil, List.nodup_nil,
    fun n => ⟨?_, ?_⟩, fun c c' n hn hn' => h.inv.owner c c' n (hpages hn).2 (hpages hn').2,
    fun c n rest hc => ?_⟩, fun c => h.done c (List.mem_finRange c), h.layout, hown,
    fun x hx => absurd hx List.not_mem_nil⟩
  · obtain ⟨-, hn⟩ := hhdr hn
    have hbook := h.inv.book n slab hn
    exact ⟨hbook.sound, hbook.used, hbook.bit⟩
  · rintro ⟨slab, hn⟩
    obtain ⟨hsix, hn⟩ := hhdr hn
    obtain ⟨c, hc⟩ := (h.inv.held n).1 ⟨slab, hn⟩
    have hne : c ≠ 6 := by
      rintro rfl
      exact hsix hc
    exact ⟨c, by rwa [smallStore_pages hne]⟩
  · rintro ⟨c, hc⟩
    obtain ⟨hne, hc⟩ := hpages hc
    obtain ⟨slab, hn⟩ := (h.inv.held n).2 ⟨c, hc⟩
    exact ⟨slab, by rwa [smallStore_hdr (hown c hne n hc)]⟩
  · have hmem : n ∈ (smallStore s).pages c := by
      rw [hc]
      exact List.mem_cons_self ..
    obtain ⟨hne, hmem⟩ := hpages hmem
    rw [smallStore_pages hne] at hc
    obtain ⟨slab, hn, hmagic⟩ := h.inv.passed c n rest hc
    exact ⟨slab, by rwa [smallStore_hdr (hown c hne n hmem)], hmagic⟩

/-- **In every history the small caches are sound.** -/
theorem mallocRun_small {page : Fin 7 → Option ℕ} {mem : Bitmap.Mem} {s : SlabStore (Fin 7)}
    (hdistinct : ∀ c c' n, page c = some n → page c' = some n → c = c')
    (hinit : initSlab page (SlabState.init mem).store = some s) {ls : List MallocEvent}
    (hrun : Run (fun t e u => mallocStep t e = some u) ⟨s, []⟩ ls t) : SmallInv t := by
  exact hrun.invariant (SmallInv.init (initSlab_created hdistinct hinit))
    fun _ _ _ hinv hstep => mallocStep_small hinv hstep

/-! ### The bytes of an object -/

/-- `p` is the address of an object of a small cache, live or not. -/
def IsPlace (s : SlabStore (Fin 7)) (c : Fin 7) (p : ℕ) : Prop :=
  c ≠ 6 ∧ addrToPage p ∈ s.pages c ∧
    ∃ i < (genericLayout c).count, p = objAddr (addrToPage p) (genericLayout c) i

/-- Behind the last object of a page there is another byte. -/
theorem genericLayout_tail {c : Fin 7} (hc : c ≠ 6) :
    (genericLayout c).startoff + (genericLayout c).count * (genericLayout c).objsize
      < pageSize := by
  revert c
  decide +kernel

/-- An object and the byte behind it are on one page and off its bitmap. -/
theorem IsPlace.byte {p k : ℕ} (h : IsPlace s c p) (hlayout : GenericPages s)
    (hk : k ≤ (genericLayout c).objsize) :
    addrToPage (p + k) = addrToPage p ∧ inBook s (p + k) = false := by
  obtain ⟨hc, hpage, i, hi, hobj⟩ := h
  have htail := genericLayout_tail hc
  have hbehind := genericLayout_behind hc
  have hmul : (genericLayout c).objsize * (i + 1)
      ≤ (genericLayout c).objsize * (genericLayout c).count := Nat.mul_le_mul_left _ hi
  rw [Nat.mul_add, Nat.mul_one] at hmul
  rw [Nat.mul_comm _ (genericLayout c).objsize, pageSize_eq] at htail
  have hsame : addrToPage (p + k) = addrToPage p := by
    rw [objAddr, pageToAddr_eq] at hobj
    rw [addrToPage_eq (p + k)]
    omega
  obtain ⟨slab, hslab, hgeneric⟩ := hlayout c _ hpage
  refine ⟨hsame, ?_⟩
  unfold inBook
  rw [hsame, hslab]
  rw [objAddr] at hobj
  refine decide_eq_false ?_
  rw [bitmapAddr, hgeneric.2.2]
  omega

/-- **Another live object** has no byte of the place. -/
theorem SmallInv.disjoint (hinv : SmallInv t) {p a : ℕ} (hp : IsPlace t.store c p) {x : ℕ × ℤ}
    (hx : x ∈ t.live) (hne : x.1 ≠ p) (ha : inObject t.store x.1 a) :
    ¬ (p ≤ a ∧ a < p + (genericLayout c).objsize) := by
  rintro ⟨hle, hlt⟩
  have hpage := hinv.same_page hx ha
  have hsame : addrToPage a = addrToPage p := by
    have hbyte := (hp.byte (k := a - p) hinv.layout (by omega)).1
    rwa [Nat.add_sub_cancel' hle] at hbyte
  obtain ⟨hc, hmem, i, hi, hobj⟩ := hp
  rw [hsame] at hpage
  obtain ⟨-, -, -, slab, j, hslab, -, -, hxobj⟩ :=
    hinv.object_page hx (hpage ▸ hinv.own c hc _ hmem)
  obtain ⟨h, hh, hgeneric⟩ := hinv.layout c _ hmem
  rw [← hpage] at hslab hxobj
  obtain rfl : slab = h := Option.some.inj (hslab.symm.trans hh)
  obtain ⟨hxle, hxlt⟩ := ha
  rw [allocsize, ← hpage, hslab, Option.map_some, Option.getD_some, hgeneric.1] at hxlt
  rw [objAddr, hgeneric.1, hgeneric.2.1] at hxobj
  rw [objAddr] at hobj
  rcases Nat.lt_trichotomy i j with hij | rfl | hij
  · have hmul : (genericLayout c).objsize * (i + 1) ≤ (genericLayout c).objsize * j :=
      Nat.mul_le_mul_left _ hij
    rw [Nat.mul_add, Nat.mul_one] at hmul
    omega
  · exact hne (hxobj.trans hobj.symm)
  · have hmul : (genericLayout c).objsize * (j + 1) ≤ (genericLayout c).objsize * i :=
      Nat.mul_le_mul_left _ hij
    rw [Nat.mul_add, Nat.mul_one] at hmul
    omega

/-- **Only stores reach the bytes of an object** and the byte behind it. -/
theorem mallocStep_frame {e : MallocEvent} {p k : ℕ} (hinv : SmallInv t)
    (hstep : mallocStep t e = some u) (hp : IsPlace t.store c p)
    (hk : k ≤ (genericLayout c).objsize) (hw : ∀ v, e ≠ .write (p + k) v) :
    IsPlace u.store c p ∧ u.store.mem (p + k) = t.store.mem (p + k) := by
  obtain ⟨hsame, hoff⟩ := hp.byte hinv.layout hk
  obtain ⟨hc, hpage, hobj⟩ := hp
  cases e with
  | malloc size type newpage =>
    simp only [mallocStep] at hstep
    split_ifs at hstep with hcond
    obtain ⟨hpos, hmax, hfresh⟩ := hcond
    obtain ⟨⟨r, s'⟩, hmalloc, rfl⟩ := Option.map_eq_some_iff.1 hstep
    obtain ⟨c', heq, -, -⟩ := malloc_eq hpos hmax type newpage t.store
    rw [heq] at hmalloc
    have halloc := allocSlabObj_allocated hinv.layout hfresh hmalloc
    refine ⟨⟨hc, ?_, hobj⟩, halloc.frame _ ?_ hoff⟩
    · rcases eq_or_ne c c' with rfl | hne
      · rcases halloc.pages with h | ⟨n, -, h⟩
        · exact h ▸ hpage
        · rw [h]
          exact List.mem_append_left _ hpage
      · rw [halloc.others c hne]
        exact hpage
    · rw [hsame, Option.isSome_iff_ne_none]
      exact hinv.layout.hdr_ne_none hpage
  | free q =>
    simp only [mallocStep] at hstep
    split_ifs at hstep with hlive
    obtain ⟨s', hfree, rfl⟩ := Option.map_eq_some_iff.1 hstep
    obtain ⟨x, hx, rfl⟩ := List.mem_map.1 hlive
    rw [free, if_pos (hinv.ne_zero hx)] at hfree
    obtain ⟨-, hpages, -⟩ := freeSlabObj_layout hinv.layout hfree
    exact ⟨⟨hc, by rw [hpages]; exact hpage, hobj⟩, hinv.free_mem hx hfree (Or.inr hoff)⟩
  | write a v =>
    simp only [mallocStep] at hstep
    split_ifs at hstep
    obtain rfl := Option.some.inj hstep
    refine ⟨⟨hc, hpage, hobj⟩, Function.update_of_ne ?_ ..⟩
    rintro rfl
    exact hw v rfl

end Hvf
