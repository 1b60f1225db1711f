/-
# `malloc` and `free`

`cp/mm/slab.c`.  `init_slab` creates seven caches and `malloc` takes the
smallest one whose objects are large enough.  Callers write inside the objects
they hold, so a header or a bitmap is safe exactly when no object overlaps it.

The bitmap of `count` bits takes `(count + 7) / 8` bytes, and `create_slab`
leaves `(count + 4) / 8`.  Six of the classes have room to spare or a multiple
of eight objects; the class of 1024 bytes has three objects and no byte for
their bits, so its first object starts on the bitmap.
-/

import Hvf.Mm.SlabBook

namespace Hvf

open StepRun

/-- There are 7 generic caches. -/
instance neZero_caches : NeZero 7 := ⟨by decide⟩

/-- The arguments of the `create_slab` calls of `init_slab`. -/
def genericArgs : Fin 7 → ℕ × ℕ :=
  ![(16, 4), (32, 4), (64, 4), (128, 4), (256, 8), (512, 8), (1024, 8)]

/-- The layout of one of the seven caches that `init_slab` makes. -/
def genericLayout (c : Fin 7) : Slab := slabLayout (genericArgs c).1 (genericArgs c).2

/-- `init_slab`, which goes on while the calls succeed; `none` is `-ENOMEM`. -/
def initSlab (page : Fin 7 → Option ℕ) (s : SlabStore (Fin 7)) : Option (SlabStore (Fin 7)) :=
  (List.finRange 7).foldlM
    (fun s c => createSlab c (genericArgs c).1 (genericArgs c).2 (page c) s) s

/-- `malloc`. -/
def malloc (size : ℤ) (type : Zone) (newpage : Option ℕ) (s : SlabStore (Fin 7)) :
    Option (Option ℕ × SlabStore (Fin 7)) :=
  if size = 0 then some (none, s)
  else if size ≤ 16 then allocSlabObj 0 type newpage s
  else if size ≤ 32 then allocSlabObj 1 type newpage s
  else if size ≤ 64 then allocSlabObj 2 type newpage s
  else if size ≤ 128 then allocSlabObj 3 type newpage s
  else if size ≤ 256 then allocSlabObj 4 type newpage s
  else if size ≤ 512 then allocSlabObj 5 type newpage s
  else if size ≤ 1024 then allocSlabObj 6 type newpage s
  else some (none, s)

/-- `free`. -/
def free (ptr : ℕ) (s : SlabStore (Fin 7)) : Option (SlabStore (Fin 7)) :=
  if ptr ≠ 0 then freeSlabObj ptr s else some s

/-! ### Runs -/

/-- The allocator and the objects its callers hold, each with the size that was
asked for. -/
structure MallocState where
  store : SlabStore (Fin 7)
  live : List (ℕ × ℤ)

/-- **What happens to the heap**: an allocation, with the page that `alloc_pages` has for
it, a release, or a store by the program. -/
inductive MallocEvent
  | malloc (size : ℤ) (type : Zone) (page : Option ℕ)
  | free (ptr : ℕ)
  | write (a : ℕ) (v : BitVec 8)

/-- Whether the byte at `a` belongs to the object at `ptr`. -/
def inObject (s : SlabStore (Fin 7)) (ptr a : ℕ) : Prop :=
  ptr ≤ a ∧ a < ptr + (allocsize ptr s).getD 0

/-- Whether an address is within an object is decided from the page's layout. -/
instance (s : SlabStore (Fin 7)) (ptr a : ℕ) : Decidable (inObject s ptr a) :=
  inferInstanceAs (Decidable (_ ∧ _))

/-- A `malloc` of 1 to 1024 bytes, a `free` of a live object, or a store into a
live object. -/
def mallocStep (t : MallocState) : MallocEvent → Option MallocState
  | .malloc size type page =>
    if 1 ≤ size ∧ size ≤ 1024 ∧ freshPage t.store page then
      (malloc size type page t.store).map fun r =>
        ⟨r.2, (r.1.map fun ptr => (ptr, size)).toList ++ t.live⟩
    else
      none
  | .free ptr =>
    if ptr ∈ t.live.map Prod.fst then
      (free ptr t.store).map fun s => ⟨s, t.live.eraseP fun x => ptr == x.1⟩
    else
      none
  | .write a v =>
    if ∃ x ∈ t.live, inObject t.store x.1 a then
      some { t with store := { t.store with mem := Function.update t.store.mem a v } }
    else
      none

/-- **The memory that was handed out is the callers':** no byte is in two live
objects, an object is as large as was asked for, and its bytes are on one page
and off the header and the bitmap of that page. -/
structure CallersOwn (t : MallocState) : Prop where
  disjoint : t.live.Pairwise fun x y => ∀ a, ¬ (inObject t.store x.1 a ∧ inObject t.store y.1 a)
  room : ∀ x ∈ t.live, ∃ n, allocsize x.1 t.store = some n ∧ x.2 ≤ n
  page : ∀ x ∈ t.live, ∀ a, inObject t.store x.1 a → addrToPage a = addrToPage x.1
  book : ∀ x ∈ t.live, ∀ a, inObject t.store x.1 a → inBook t.store a = false

/-- No `malloc` of more than 512 bytes finds a page: none of the cache of 1024
byte objects is eligible, and there is no new one. -/
def noLargeObject (t : MallocState) : MallocEvent → Prop
  | .malloc size type page => size ≤ 512 ∨
      ((∀ n ∈ t.store.pages 6, eligible t.store type n = false) ∧ page = none)
  | _ => True

/-! ### The layouts of the seven classes -/

/-- The sizes of the seven caches are ones that `create_slab` takes. -/
theorem genericArgs_slabArgs (c : Fin 7) : SlabArgs (genericArgs c).1 (genericArgs c).2 := by
  revert c
  decide +kernel

/-- Objects of six classes start behind the bitmap. -/
theorem genericLayout_behind {c : Fin 7} (hc : c ≠ 6) :
    sizeofSlab + ((genericLayout c).count + 7) / 8 ≤ (genericLayout c).startoff := by
  revert c
  decide +kernel

/-- The first object of the seventh class starts on the bitmap. -/
theorem genericLayout_large : (genericLayout 6).startoff = sizeofSlab ∧
    (genericLayout 6).objsize = 1024 ∧ (genericLayout 6).count = 3 := by
  decide +kernel

/-- A cache's objects have the size asked for. -/
theorem genericLayout_objsize (c : Fin 7) : (genericLayout c).objsize = (genericArgs c).1 := by
  revert c
  decide +kernel

/-- **The class of a size** is large enough, and is the seventh one for sizes
over 512. -/
theorem malloc_eq {size : ℤ} (hpos : 1 ≤ size) (hmax : size ≤ 1024) (type : Zone)
    (newpage : Option ℕ) (s : SlabStore (Fin 7)) :
    ∃ c, malloc size type newpage s = allocSlabObj c type newpage s ∧
      size ≤ ((genericLayout c).objsize : ℤ) ∧ (c = 6 ↔ 512 < size) := by
  simp only [genericLayout_objsize]
  unfold malloc
  split_ifs with h0 h16 h32 h64 h128 h256 h512
  · omega
  · exact ⟨0, rfl, h16, iff_of_false (by decide) (by omega)⟩
  · exact ⟨1, rfl, h32, iff_of_false (by decide) (by omega)⟩
  · exact ⟨2, rfl, h64, iff_of_false (by decide) (by omega)⟩
  · exact ⟨3, rfl, h128, iff_of_false (by decide) (by omega)⟩
  · exact ⟨4, rfl, h256, iff_of_false (by decide) (by omega)⟩
  · exact ⟨5, rfl, h512, iff_of_false (by decide) (by omega)⟩
  · exact ⟨6, rfl, hmax, iff_of_true rfl (by omega)⟩

/-! ### The invariant -/

/-- Every page of a cache has the layout of the cache. -/
def GenericPages (s : SlabStore (Fin 7)) : Prop :=
  ∀ c, ∀ page ∈ s.pages c, ∃ slab, s.hdr page = some slab ∧ slab.SameLayout (genericLayout c)

/-- **The seven caches exist, and no object of the seventh is live.** Their book-keeping is
sound, and every live object is in a cache whose objects are large enough for it. -/
structure MallocInv (t : MallocState) : Prop where
  inv : SlabInv t.store (t.live.map Prod.fst)
  created : ∀ c, t.store.pages c ≠ []
  layout : GenericPages t.store
  object : ∀ x ∈ t.live, ∃ c ≠ 6, addrToPage x.1 ∈ t.store.pages c ∧
    x.2 ≤ ((genericLayout c).objsize : ℤ)

/-- **What a live object of the invariant is:** object `i` of a page of one of
the six classes. -/
theorem MallocInv.object_page {t : MallocState} (hinv : MallocInv t) {x : ℕ × ℤ}
    (hx : x ∈ t.live) : ∃ c ≠ 6, ∃ slab i, t.store.hdr (addrToPage x.1) = some slab ∧
      slab.SameLayout (genericLayout c) ∧ slab.Sound ∧ i < slab.count ∧
      x.1 = objAddr (addrToPage x.1) slab i ∧ allocsize x.1 t.store = some slab.objsize ∧
      x.2 ≤ (slab.objsize : ℤ) := by
  obtain ⟨c, hc, hpage, hsize⟩ := hinv.object x hx
  obtain ⟨slab, i, hslab, hi, hobj⟩ := hinv.inv.object_page (List.mem_map_of_mem hx)
  obtain ⟨h, hh, hlayout⟩ := hinv.layout c _ hpage
  obtain rfl : slab = h := Option.some.inj (hslab.symm.trans hh)
  refine ⟨c, hc, slab, i, hslab, hlayout, (hinv.inv.book _ _ hslab).sound, hi, hobj, ?_, ?_⟩
  · rw [allocsize, hslab, Option.map_some]
  · rw [hlayout.1]
    exact hsize

/-- **Under the invariant the callers own their memory.** -/
theorem MallocInv.owned {t : MallocState} (hinv : MallocInv t) : CallersOwn t := by
  have hpage : ∀ x ∈ t.live, ∀ a, inObject t.store x.1 a → addrToPage a = addrToPage x.1 := by
    intro x hx a ha
    obtain ⟨c, -, slab, i, hslab, -, hsound, hi, hobj, halloc, -⟩ := hinv.object_page hx
    obtain ⟨hle, hlt⟩ := ha
    have hin := hsound.mul_le hi
    rw [halloc, Option.getD_some] at hlt
    rw [objAddr, pageToAddr_eq] at hobj
    rw [pageSize_eq] at hin
    rw [addrToPage_eq a]
    omega
  refine ⟨?_, fun x hx => ?_, hpage, fun x hx a ha => ?_⟩
  · have hnodup : t.live.Pairwise fun x y => x.1 ≠ y.1 := List.pairwise_map.1 hinv.inv.nodup
    refine hnodup.imp_of_mem fun {x y} hx hy hne a hboth => ?_
    obtain ⟨c, -, slab, i, hslab, -, hsound, hi, hobj, halloc, -⟩ := hinv.object_page hx
    obtain ⟨c', -, slab', j, hslab', -, -, -, hobj', halloc', -⟩ := hinv.object_page hy
    -- A byte in both puts both on one page; there the objects follow each other.
    have hsame := (hpage x hx a hboth.1).symm.trans (hpage y hy a hboth.2)
    rw [← hsame] at hslab' hobj'
    obtain rfl : slab = slab' := Option.some.inj (hslab.symm.trans hslab')
    obtain ⟨⟨hle, hlt⟩, hle', hlt'⟩ := hboth
    rw [halloc, Option.getD_some] at hlt
    rw [halloc', Option.getD_some] at hlt'
    rw [objAddr] at hobj hobj'
    rcases Nat.lt_trichotomy i j with hij | rfl | hij
    · have hmul : slab.objsize * (i + 1) ≤ slab.objsize * j := Nat.mul_le_mul_left _ hij
      rw [Nat.mul_add, Nat.mul_one] at hmul
      omega
    · exact hne (hobj.trans hobj'.symm)
    · have hmul : slab.objsize * (j + 1) ≤ slab.objsize * i := Nat.mul_le_mul_left _ hij
      rw [Nat.mul_add, Nat.mul_one] at hmul
      omega
  · obtain ⟨c, -, slab, i, -, -, -, -, -, halloc, hsize⟩ := hinv.object_page hx
    exact ⟨slab.objsize, halloc, hsize⟩
  · obtain ⟨c, hc, slab, i, hslab, hlayout, -, -, hobj, -, -⟩ := hinv.object_page hx
    have hbehind := genericLayout_behind hc
    rw [← hlayout.2.1, ← hlayout.2.2] at hbehind
    have hle : x.1 ≤ a := ha.1
    unfold inBook
    rw [hpage x hx a ha, hslab]
    rw [objAddr] at hobj
    refine decide_eq_false ?_
    rw [bitmapAddr]
    omega

/-! ### Steps -/

/-- The pages of the caches keep their layouts when an object is taken. -/
theorem Taken.genericPages {s s' : SlabStore (Fin 7)} {c : Fin 7} {page i : ℕ} {slab : Slab}
    {live : List ℕ} (htaken : Taken c page slab i s live s') (hlayout : GenericPages s) :
    slab.SameLayout (genericLayout c) ∧ GenericPages s' := by
  obtain ⟨passed, hpassed, h, hh, hsame⟩ := htaken.layout
  obtain ⟨h', hh', hgeneric⟩ := hlayout c passed hpassed
  obtain rfl : h = h' := Option.some.inj (hh.symm.trans hh')
  have hslab : slab.SameLayout (genericLayout c) :=
    ⟨hsame.1.trans hgeneric.1, hsame.2.1.trans hgeneric.2.1, hsame.2.2.trans hgeneric.2.2⟩
  refine ⟨hslab, fun c' n hn => ?_⟩
  rw [htaken.hdr]
  rcases eq_or_ne n page with rfl | hne
  · have hown : n ∈ s'.pages c := (htaken.pages c n).2 (Or.inr ⟨rfl, rfl⟩)
    obtain rfl := htaken.inv.owner _ _ _ hn hown
    exact ⟨_, Function.update_self .., hslab⟩
  · rcases (htaken.pages c' n).1 hn with hold | ⟨-, rfl⟩
    · rw [Function.update_of_ne hne]
      exact hlayout c' n hold
    · exact absurd rfl hne

/-- **A `malloc` keeps the invariant, or hands out a bitmap.** -/
theorem mallocStep_malloc {t u : MallocState} {size : ℤ} {type : Zone} {newpage : Option ℕ}
    (hinv : MallocInv t) (hstep : mallocStep t (.malloc size type newpage) = some u) :
    (noLargeObject t (.malloc size type newpage) → MallocInv u) ∧
      (¬ noLargeObject t (.malloc size type newpage) → ¬ CallersOwn u) := by
  simp only [mallocStep] at hstep
  split_ifs at hstep with hcond
  obtain ⟨hpos, hmax, hfresh⟩ := hcond
  obtain ⟨r, hmalloc, rfl⟩ := Option.map_eq_some_iff.1 hstep
  obtain ⟨c, heq, hsize, hc⟩ := malloc_eq hpos hmax type newpage t.store
  rw [heq] at hmalloc
  rcases hinv.inv.alloc type (hinv.created c) hfresh with
    ⟨hfull, hnull⟩ | ⟨hroom, page, slab, i, s', hobj, htaken⟩
  · obtain rfl := Option.some.inj (hnull.symm.trans hmalloc)
    refine ⟨fun _ => hinv, fun hlarge => absurd ?_ hlarge⟩
    by_cases h6 : c = 6
    · exact Or.inr (h6 ▸ hfull)
    · exact Or.inl (not_lt.1 (mt hc.2 h6))
  · obtain rfl := Option.some.inj (hobj.symm.trans hmalloc)
    obtain ⟨hslab, hpages⟩ := htaken.genericPages hinv.layout
    have hpage : page ∈ s'.pages c := (htaken.pages c page).2 (Or.inr ⟨rfl, rfl⟩)
    have hsound : slab.Sound := by
      obtain ⟨h, hh, -⟩ := hpages c page hpage
      have hbook := (htaken.inv.book page h hh).sound
      rw [htaken.hdr, Function.update_self] at hh
      obtain rfl := Option.some.inj hh
      exact ⟨hbook.objsize_pos, hbook.count_pos, hbook.behind, hbook.inside⟩
    have haddr : addrToPage (objAddr page slab i) = page := hsound.addrToPage_objAddr htaken.lt
    by_cases h6 : c = 6
    · subst h6
      refine ⟨fun hcond => ?_, fun _ hown => ?_⟩
      · rcases hcond with hsmall | hfull
        · exact absurd (hc.1 rfl) (not_lt.2 hsmall)
        · exact absurd hfull hroom
      · -- No object of the seventh class was live, so the first one was taken.
        have hi : i = 0 := by
          by_contra hne
          obtain ⟨x, hx, hxobj⟩ := List.mem_map.1 (htaken.first 0 (Nat.pos_of_ne_zero hne))
          obtain ⟨c', hc', hxpage, -⟩ := hinv.object x hx
          rw [hxobj, hsound.addrToPage_objAddr hsound.count_pos] at hxpage
          exact hc' (htaken.inv.owner _ _ _ ((htaken.pages c' page).2 (Or.inl hxpage)) hpage)
        subst hi
        obtain ⟨hstart, hobjsize, hcount⟩ := genericLayout_large
        have halloc : allocsize (objAddr page slab 0) s' = some slab.objsize := by
          rw [allocsize, haddr, htaken.hdr, Function.update_self, Option.map_some]
        have hfirst : inObject s' (objAddr page slab 0) (objAddr page slab 0) := by
          refine ⟨le_rfl, ?_⟩
          rw [halloc, Option.getD_some]
          exact Nat.lt_add_of_pos_right hsound.objsize_pos
        have hbook := hown.book _ (List.mem_cons_self ..) _ hfirst
        simp only [inBook, haddr, htaken.hdr, Function.update_self] at hbook
        have hge := of_decide_eq_false hbook
        rw [hslab.2.2, hcount, objAddr, hslab.2.1, hstart, bitmapAddr] at hge
        omega
    · refine ⟨fun _ => ⟨htaken.inv, fun c' hnil => ?_, hpages, fun x hx => ?_⟩,
        fun hlarge => absurd (Or.inl (not_lt.1 (mt hc.2 h6))) hlarge⟩
      · obtain ⟨n, hn⟩ := List.exists_mem_of_ne_nil _ (hinv.created c')
        have hin := (htaken.pages c' n).2 (Or.inl hn)
        rw [hnil] at hin
        exact List.not_mem_nil hin
      · rcases List.mem_cons.1 hx with rfl | hx
        · refine ⟨c, h6, ?_, hsize⟩
          rw [haddr]
          exact hpage
        · obtain ⟨c', hc', hxpage, hxsize⟩ := hinv.object x hx
          exact ⟨c', hc', (htaken.pages _ _).2 (Or.inl hxpage), hxsize⟩

/-- A `free` and a store into a live object keep the invariant. -/
theorem mallocStep_free {t u : MallocState} {ptr : ℕ} (hinv : MallocInv t)
    (hstep : mallocStep t (.free ptr) = some u) : MallocInv u := by
  simp only [mallocStep] at hstep
  split_ifs at hstep with hlive
  obtain ⟨s', hfree, rfl⟩ := Option.map_eq_some_iff.1 hstep
  obtain ⟨slab, i, hslab, hi, hobj, s'', hfree', hhdr, hpages, -, hinv'⟩ := hinv.inv.free hlive
  have hne : ptr ≠ 0 := by
    have hbehind := (hinv.inv.book _ _ hslab).sound.behind
    rw [objAddr] at hobj
    rw [sizeofSlab] at hbehind
    omega
  rw [free, if_pos hne, hfree'] at hfree
  obtain rfl := Option.some.inj hfree
  refine ⟨?_, fun c => ?_, fun c page hpage => ?_, fun x hx => ?_⟩
  · rw [List.erase_eq_eraseP, List.eraseP_map] at hinv'
    exact hinv'
  · rw [hpages]
    exact hinv.created c
  · rw [hpages] at hpage
    obtain ⟨h, hh, hlayout⟩ := hinv.layout c page hpage
    rw [hhdr]
    rcases eq_or_ne page (addrToPage ptr) with rfl | hother
    · obtain rfl : slab = h := Option.some.inj (hslab.symm.trans hh)
      exact ⟨_, Function.update_self .., hlayout⟩
    · exact ⟨h, by rw [← hh]; exact Function.update_of_ne hother .., hlayout⟩
  · rw [hpages]
    exact hinv.object x (List.mem_of_mem_eraseP hx)

/-- A store within the program's objects keeps the heap's invariant. -/
theorem mallocStep_write {t u : MallocState} {a : ℕ} {v : BitVec 8} (hinv : MallocInv t)
    (hstep : mallocStep t (.write a v) = some u) : MallocInv u := by
  simp only [mallocStep] at hstep
  split_ifs at hstep with hlive
  obtain rfl := Option.some.inj hstep
  obtain ⟨x, hx, ha⟩ := hlive
  exact ⟨hinv.inv.write (hinv.owned.book x hx a ha) v, hinv.created, hinv.layout, hinv.object⟩

/-- **One event keeps the heap's invariant**, if it is no allocation from the 1024 byte cache.
-/
theorem mallocStep_inv {t u : MallocState} {e : MallocEvent} (hinv : MallocInv t)
    (hcond : noLargeObject t e) (hstep : mallocStep t e = some u) : MallocInv u := by
  cases e with
  | malloc size type page => exact (mallocStep_malloc hinv hstep).1 hcond
  | free ptr => exact mallocStep_free hinv hstep
  | write a v => exact mallocStep_write hinv hstep

/-! ### `init_slab` -/

/-- **The store once the classes of `cs` are created** from the pages `page`, in order, and
no object is taken yet. -/
structure Created (page : Fin 7 → Option ℕ) (cs : List (Fin 7)) (s : SlabStore (Fin 7)) :
    Prop where
  inv : SlabInv s []
  layout : GenericPages s
  done : ∀ c ∈ cs, s.pages c ≠ []
  rest : ∀ c, c ∉ cs → s.pages c = []
  held : ∀ n, s.hdr n ≠ none → ∃ c ∈ cs, page c = some n

/-- One cache more is created. -/
theorem Created.snoc {page : Fin 7 → Option ℕ} {cs : List (Fin 7)} {s s' : SlabStore (Fin 7)}
    {c : Fin 7} (hcreated : Created page cs s) (hc : c ∉ cs)
    (hdistinct : ∀ c c' n, page c = some n → page c' = some n → c = c')
    (hstep : createSlab c (genericArgs c).1 (genericArgs c).2 (page c) s = some s') :
    Created page (cs ++ [c]) s' := by
  have hfresh : freshPage s (page c) = true := by
    cases hpage : page c with
    | none => rfl
    | some n =>
      by_contra hheld
      obtain ⟨c', hc', hn⟩ := hcreated.held n (by simpa [freshPage] using hheld)
      exact hc (hdistinct c c' n hpage hn ▸ hc')
  obtain ⟨n, hpage, hhdr, hpages, hinv⟩ :=
    hcreated.inv.create (hcreated.rest c hc) (genericArgs_slabArgs c) hfresh hstep
  have hunused : s.hdr n = none := by simpa [freshPage, hpage] using hfresh
  refine ⟨hinv, fun c' m hm => ?_, fun c' hc' => ?_, fun c' hc' => ?_, fun m hm => ?_⟩
  · rw [hpages] at hm
    rw [hhdr]
    rcases eq_or_ne c' c with rfl | hne
    · rw [Function.update_self, List.mem_singleton] at hm
      subst hm
      exact ⟨_, Function.update_self .., rfl, rfl, rfl⟩
    · rw [Function.update_of_ne hne] at hm
      obtain ⟨h, hh, hlayout⟩ := hcreated.layout c' m hm
      have hother : m ≠ n := by
        rintro rfl
        cases hunused.symm.trans hh
      exact ⟨h, by rw [← hh]; exact Function.update_of_ne hother .., hlayout⟩
  · rw [hpages]
    rcases eq_or_ne c' c with rfl | hne
    · simp
    · rw [Function.update_of_ne hne]
      exact hcreated.done c' ((List.mem_append.1 hc').resolve_right (by simpa using hne))
  · rw [hpages]
    rw [List.mem_append, List.mem_singleton, not_or] at hc'
    rw [Function.update_of_ne hc'.2]
    exact hcreated.rest c' hc'.1
  · rw [hhdr] at hm
    rcases eq_or_ne m n with rfl | hne
    · exact ⟨c, List.mem_append_right _ (List.mem_singleton_self c), hpage⟩
    · rw [Function.update_of_ne hne] at hm
      obtain ⟨c', hc', hm'⟩ := hcreated.held m hm
      exact ⟨c', List.mem_append_left _ hc', hm'⟩

/-- `init_slab` creates the seven caches, each on a page of its own. -/
theorem initSlab_created {page : Fin 7 → Option ℕ} {mem : Bitmap.Mem} {s : SlabStore (Fin 7)}
    (hdistinct : ∀ c c' n, page c = some n → page c' = some n → c = c')
    (hinit : initSlab page (SlabState.init mem).store = some s) :
    Created page (List.finRange 7) s := by
  have hrun : ∀ (cs : List (Fin 7)), cs.Nodup → ∀ s : SlabStore (Fin 7), cs.foldlM
      (fun s c => createSlab c (genericArgs c).1 (genericArgs c).2 (page c) s)
      (SlabState.init mem).store = some s → Created page cs s := by
    intro cs
    induction cs using List.reverseRecOn with
    | nil =>
      rintro - s hs
      obtain rfl := Option.some.inj hs
      exact ⟨SlabInv.init mem, fun c page hpage => absurd hpage List.not_mem_nil,
        fun c hc => absurd hc List.not_mem_nil, fun _ _ => rfl, fun n hn => absurd rfl hn⟩
    | append_singleton cs c ih =>
      intro hnodup s hs
      rw [List.foldlM_append] at hs
      obtain ⟨s₁, hfirst, hlast⟩ := Option.bind_eq_some_iff.1 hs
      rw [List.foldlM_cons] at hlast
      obtain ⟨s₂, hstep, hs₂⟩ := Option.bind_eq_some_iff.1 hlast
      obtain rfl := Option.some.inj hs₂
      have hcs := List.nodup_append.1 hnodup
      refine (ih hcs.1 s₁ hfirst).snoc (fun hin => ?_) hdistinct hstep
      exact hcs.2.2 c hin c (List.mem_singleton_self c) rfl
  exact hrun _ (List.nodup_finRange 7) s hinit

/-- **Exactly when the callers own what `malloc` hands out.**  After `init_slab`,
in runs of `malloc`, `free` and stores into live objects, the live objects are
disjoint, large enough, and off the headers and bitmaps at every moment exactly
when no `malloc` of more than 512 bytes finds a page. -/
theorem malloc_owned_iff {page : Fin 7 → Option ℕ} {mem : Bitmap.Mem} {s : SlabStore (Fin 7)}
    (hdistinct : ∀ c c' n, page c = some n → page c' = some n → c = c')
    (hinit : initSlab page (SlabState.init mem).store = some s) {ls : List MallocEvent}
    {t : MallocState} (hrun : Run (fun t e u => mallocStep t e = some u) ⟨s, []⟩ ls t) :
    (∀ ls' t', ls' <+: ls → Run (fun t e u => mallocStep t e = some u) ⟨s, []⟩ ls' t' →
      CallersOwn t') ↔
      Run (guarded noLargeObject fun t e u => mallocStep t e = some u) ⟨s, []⟩ ls t := by
  have hcreated := initSlab_created hdistinct hinit
  have hstart : MallocInv ⟨s, []⟩ := ⟨hcreated.inv, fun c => hcreated.done c (List.mem_finRange c),
    hcreated.layout, fun x hx => absurd hx List.not_mem_nil⟩
  refine Run.always_iff (P := fun _ t => CallersOwn t)
    (fun t e u u' h h' => Option.some.inj (h.symm.trans h')) hstart.owned ?_ hrun
  intro ls t e u hguarded _ hstep
  have hinv : MallocInv t := hguarded.invariant hstart
    fun _ _ _ hinv hlast => mallocStep_inv hinv hlast.1 hlast.2
  refine ⟨fun hown => ?_, fun hcond => (mallocStep_inv hinv hcond hstep).owned⟩
  cases e with
  | malloc size type newpage =>
    by_contra hlarge
    exact (mallocStep_malloc hinv hstep).2 hlarge hown
  | free ptr => trivial
  | write a v => trivial

/-- Small objects from the pages 10 to 16: three are handed out, one is filled by its
caller, one is given back. In every state the callers own theirs. -/
theorem malloc_owned_small :
    ∃ s t, initSlab (fun c => some (10 + c.val)) (SlabState.init fun _ => 0xff).store = some s ∧
      Run (fun t e u => mallocStep t e = some u) ⟨s, []⟩ [.malloc 100 .low none,
        .malloc 512 .low none, .write 53300 0, .malloc 7 .low none, .free 53292] t ∧
      ∀ ls' t', ls' <+: [.malloc 100 .low none, .malloc 512 .low none, .write 53300 0,
          .malloc 7 .low none, .free 53292] →
        Run (fun t e u => mallocStep t e = some u) ⟨s, []⟩ ls' t' → CallersOwn t' := by
  have hlive : ((initSlab (fun c => some (10 + c.val)) (SlabState.init fun _ => 0xff).store).bind
      fun s => ([.malloc 100 .low none, .malloc 512 .low none, .write 53300 0,
        .malloc 7 .low none, .free 53292].foldlM mallocStep ⟨s, []⟩).map
          MallocState.live) = some [(41032, 7), (61488, 512)] := by decide +kernel
  obtain ⟨s, hinit, hfold⟩ := Option.bind_eq_some_iff.1 hlive
  obtain ⟨t, ht, -⟩ := Option.map_eq_some_iff.1 hfold
  have hrun := Run.of_foldlM ht
  refine ⟨s, t, hinit, hrun, (malloc_owned_iff (fun c c' n h h' => ?_) hinit hrun).2
    (hrun.to_guarded fun u e he => ?_)⟩
  · have hsum := Option.some.inj (h.trans h'.symm)
    exact Fin.ext (Nat.add_left_cancel hsum)
  · simp only [List.mem_cons, List.not_mem_nil, or_false] at he
    rcases he with rfl | rfl | rfl | rfl | rfl
    · exact Or.inl (by decide)
    · exact Or.inl le_rfl
    · trivial
    · exact Or.inl (by decide)
    · trivial

/-- `malloc(1000)` returns the bitmap; its caller stores a zero, and the next
`malloc(1000)` returns the same object. -/
theorem malloc_bitmap :
    ∃ s t, initSlab (fun c => some (10 + c.val)) (SlabState.init fun _ => 0xff).store = some s ∧
      Run (fun t e u => mallocStep t e = some u) ⟨s, []⟩
        [.malloc 1000 .low none, .write 65576 0, .malloc 1000 .low none] t ∧
      t.live = [(65576, 1000), (65576, 1000)] ∧ ¬ CallersOwn t := by
  have hlive : ((initSlab (fun c => some (10 + c.val)) (SlabState.init fun _ => 0xff).store).bind
      fun s => ([.malloc 1000 .low none, .write 65576 0, .malloc 1000 .low none].foldlM mallocStep
        ⟨s, []⟩).map fun t => (t.live, allocsize 65576 t.store))
      = some ([(65576, 1000), (65576, 1000)], some 1024) := by decide +kernel
  obtain ⟨s, hinit, hfold⟩ := Option.bind_eq_some_iff.1 hlive
  obtain ⟨t, ht, hlast⟩ := Option.map_eq_some_iff.1 hfold
  obtain ⟨hl, hsize⟩ := Prod.mk.inj hlast
  refine ⟨s, t, hinit, Run.of_foldlM ht, hl, fun hown => ?_⟩
  have hdisjoint := hown.disjoint
  rw [hl] at hdisjoint
  have hin : inObject t.store 65576 65576 := ⟨le_rfl, by rw [hsize]; decide⟩
  exact (List.pairwise_cons.1 hdisjoint).1 _ (List.mem_singleton_self _) 65576 ⟨hin, hin⟩

end Hvf
