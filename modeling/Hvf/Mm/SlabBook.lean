/-
# The bookkeeping of a slab cache

`cp/mm/slab.c`.  Runs of `create_slab`, `alloc_slab_obj`, `free_slab_obj` of
objects that are live, and stores of callers that stay off the headers and the
bitmaps.  The live objects are recorded beside the store.

`SlabInv` says that the `used` counter, the bitmap and the live objects of every
page agree.  Taking an object and giving it back both change one page only, so
both are instances of `SlabInv.touch`; a page that a cache gets is
`SlabInv.addPage`.
-/

import Hvf.Lib.StepRun
import Hvf.Mm.Slab

namespace Hvf

open StepRun

variable {κ : Type}

/-! ### Runs -/

/-- **The slab allocator and the objects its callers hold**, which is what the calls of a
run are judged by. -/
structure SlabState (κ : Type) where
  store : SlabStore κ
  live : List ℕ

/-- Before any cache is created. -/
def SlabState.init (mem : Bitmap.Mem) : SlabState κ where
  store := { hdr := fun _ => none, pages := fun _ => [], mem }
  live := []

/-- **What happens to the caches**: one is created, an object is allocated or released, the
program stores a byte. -/
inductive SlabEvent (κ : Type)
  | create (c : κ) (objsize align : ℕ) (page : Option ℕ)
  | alloc (c : κ) (type : Zone) (page : Option ℕ)
  | free (ptr : ℕ)
  | write (a : ℕ) (v : BitVec 8)

/-- `alloc_pages` hands out a page that is not a slab page already. -/
def freshPage (s : SlabStore κ) (page : Option ℕ) : Bool := page.all fun n => (s.hdr n).isNone

/-- Whether the byte at `a` belongs to a slab header or to a bitmap. -/
def inBook (s : SlabStore κ) (a : ℕ) : Bool :=
  match s.hdr (addrToPage a) with
  | some slab => a < bitmapAddr (addrToPage a) + (slab.count + 7) / 8
  | none => false

/-- Whether `create_slab` takes a size and an alignment is decided. -/
instance (objsize align : ℕ) : Decidable (SlabArgs objsize align) :=
  decidable_of_iff ((∃ k < 8, align = 2 ^ k) ∧ 0 < objsize ∧
      0 < (slabLayout objsize align).objsize ∧ 0 < (slabLayout objsize align).count)
    ⟨fun h => ⟨h.1, h.2.1, h.2.2⟩, fun h => ⟨h.pow, h.size, h.room⟩⟩

/-- One call or one store.  A page allocation may fail at any call. -/
def slabStep [DecidableEq κ] (t : SlabState κ) : SlabEvent κ → Option (SlabState κ)
  | .create c objsize align page =>
    if t.store.pages c = [] ∧ SlabArgs objsize align ∧ freshPage t.store page then
      some { t with store := (createSlab c objsize align page t.store).getD t.store }
    else
      none
  | .alloc c type page =>
    if freshPage t.store page then
      (allocSlabObj c type page t.store).map fun r => ⟨r.2, r.1.toList ++ t.live⟩
    else
      none
  | .free ptr =>
    if ptr ∈ t.live then
      (freeSlabObj ptr t.store).map fun s => ⟨s, t.live.erase ptr⟩
    else
      none
  | .write a v =>
    if inBook t.store a then
      none
    else
      some { t with store := { t.store with mem := Function.update t.store.mem a v } }

/-! ### The invariant -/

/-- **The counter, the bitmap and the live objects of one page agree**: as many bits are set
as objects are live, and the bits are those of the live ones. -/
structure PageBook (s : SlabStore κ) (live : List ℕ) (page : ℕ) (slab : Slab) : Prop where
  sound : slab.Sound
  used : slab.used = Bitmap.count s.mem (bitmapAddr page) slab.count
  bit : ∀ i < slab.count,
    (Bitmap.test s.mem (bitmapAddr page) i = true ↔ objAddr page slab i ∈ live)

/-- **The book-keeping of the caches**: every page's counters and bits say which of its objects
are live, and every live object is one of a page's. -/
structure SlabInv (s : SlabStore κ) (live : List ℕ) : Prop where
  book : ∀ page slab, s.hdr page = some slab → PageBook s live page slab
  object : ∀ p ∈ live, ∃ page slab i,
    s.hdr page = some slab ∧ i < slab.count ∧ p = objAddr page slab i
  nodup : live.Nodup
  held : ∀ page, (∃ slab, s.hdr page = some slab) ↔ ∃ c, page ∈ s.pages c
  owner : ∀ c c' page, page ∈ s.pages c → page ∈ s.pages c' → c = c'
  passed : ∀ c page rest, s.pages c = page :: rest →
    ∃ slab, s.hdr page = some slab ∧ slab.magic = .slab

variable {s : SlabStore κ} {live : List ℕ} {page page' : ℕ} {slab : Slab}

/-- Without a cache there is nothing to keep book of. -/
theorem SlabInv.init (mem : Bitmap.Mem) :
    SlabInv (SlabState.init (κ := κ) mem).store (SlabState.init (κ := κ) mem).live where
  book _ _ h := nomatch h
  object _ h := absurd h List.not_mem_nil
  nodup := List.nodup_nil
  held page := by simp [SlabState.init]
  owner _ _ _ h := absurd h List.not_mem_nil
  passed _ _ _ h := nomatch h

/-- The bitmap of a page is inside the page. -/
theorem Slab.Sound.addrToPage_bitmap (hh : slab.Sound) {k : ℕ} (hk : k < (slab.count + 7) / 8) :
    addrToPage (bitmapAddr page + k) = page := by
  have hcount := hh.count_le
  rw [addrToPage_eq, bitmapAddr, pageToAddr_eq, sizeofSlab]
  omega

/-- What is stored on other pages leaves the bitmap of a page as it was. -/
theorem Slab.Sound.test_congr (hh : slab.Sound) {m m' : Bitmap.Mem}
    (hmem : ∀ a, addrToPage a = page → m a = m' a) {i : ℕ} (hi : i < slab.count) :
    Bitmap.test m (bitmapAddr page) i = Bitmap.test m' (bitmapAddr page) i :=
  Bitmap.test_congr (fun _ hk => hmem _ (hh.addrToPage_bitmap hk)) hi

/-- Agreement carries over to a store with the same bits and the same live
objects on the page. -/
theorem PageBook.congr {s' : SlabStore κ} {live' : List ℕ} (hbook : PageBook s live page slab)
    (htest : ∀ i < slab.count, Bitmap.test s.mem (bitmapAddr page) i
      = Bitmap.test s'.mem (bitmapAddr page) i)
    (hlive : ∀ p, addrToPage p = page → (p ∈ live' ↔ p ∈ live)) :
    PageBook s' live' page slab where
  sound := hbook.sound
  used := hbook.used.trans (Bitmap.count_congr htest)
  bit i hi := by
    rw [← htest i hi, hlive _ (hbook.sound.addrToPage_objAddr hi)]
    exact hbook.bit i hi

/-- **A live object is an object of its page.** -/
theorem SlabInv.object_page (hinv : SlabInv s live) {p : ℕ} (hp : p ∈ live) :
    ∃ slab i, s.hdr (addrToPage p) = some slab ∧ i < slab.count ∧
      p = objAddr (addrToPage p) slab i := by
  obtain ⟨page, slab, i, hpage, hi, rfl⟩ := hinv.object p hp
  have haddr : addrToPage (objAddr page slab i) = page :=
    (hinv.book page slab hpage).sound.addrToPage_objAddr hi
  exact ⟨slab, i, by rwa [haddr], hi, by rw [haddr]⟩

/-- **One page is touched.**  A new counter, new bits and new live objects of
one page keep the invariant when they agree with each other. -/
theorem SlabInv.touch (hinv : SlabInv s live) (hpage : s.hdr page = some slab) {used : ℕ}
    {mem : Bitmap.Mem} {live' : List ℕ} (hmem : ∀ a, addrToPage a ≠ page → s.mem a = mem a)
    (hlive : ∀ p, addrToPage p ≠ page → (p ∈ live' ↔ p ∈ live))
    (hobject : ∀ p ∈ live', addrToPage p = page → ∃ i < slab.count, p = objAddr page slab i)
    (hnodup : live'.Nodup) (hused : used = Bitmap.count mem (bitmapAddr page) slab.count)
    (hbit : ∀ i < slab.count,
      (Bitmap.test mem (bitmapAddr page) i = true ↔ objAddr page slab i ∈ live')) :
    SlabInv { s with hdr := Function.update s.hdr page (some { slab with used }), mem } live' where
  book n h hn := by
    rcases eq_or_ne n page with rfl | hne
    · obtain rfl : { slab with used } = h := by simpa using hn
      have hsound := (hinv.book n slab hpage).sound
      exact ⟨⟨hsound.objsize_pos, hsound.count_pos, hsound.behind, hsound.inside⟩, hused, hbit⟩
    · have hold : s.hdr n = some h := by simpa [hne] using hn
      have hbook := hinv.book n h hold
      refine hbook.congr (fun i hi => ?_) fun p hp => hlive p (hp ▸ hne)
      exact hbook.sound.test_congr (fun a ha => hmem a (ha ▸ hne)) hi
  object p hp := by
    by_cases hat : addrToPage p = page
    · obtain ⟨i, hi, rfl⟩ := hobject p hp hat
      exact ⟨page, _, i, Function.update_self .., hi, rfl⟩
    · obtain ⟨h, i, hn, hi, hobj⟩ := hinv.object_page ((hlive p hat).1 hp)
      exact ⟨addrToPage p, h, i, by rw [← hn]; exact Function.update_of_ne hat .., hi, hobj⟩
  nodup := hnodup
  held n := by
    rw [← hinv.held n]
    rcases eq_or_ne n page with rfl | hne
    · simp [hpage]
    · simp [hne]
  owner := hinv.owner
  passed c n rest hc := by
    obtain ⟨h, hn, hmagic⟩ := hinv.passed c n rest hc
    rcases eq_or_ne n page with rfl | hne
    · obtain rfl : slab = h := Option.some.inj (hpage.symm.trans hn)
      exact ⟨_, Function.update_self .., hmagic⟩
    · exact ⟨h, by rw [← hn]; exact Function.update_of_ne hne .., hmagic⟩

/-- **A cache gets a page.** -/
theorem SlabInv.addPage [DecidableEq κ] (hinv : SlabInv s live) (c : κ)
    (hfresh : s.hdr page = none) (hsound : slab.Sound) (hused : slab.used = 0)
    (hmagic : s.pages c = [] → slab.magic = .slab) :
    SlabInv { hdr := Function.update s.hdr page (some slab)
              pages := Function.update s.pages c (s.pages c ++ [page])
              mem := clearPage page s.mem } live := by
  have hnone : ∀ p ∈ live, addrToPage p ≠ page := by
    intro p hp hat
    obtain ⟨h, -, hn, -⟩ := hinv.object_page hp
    rw [hat, hfresh] at hn
    exact nomatch hn
  have hunheld : ∀ c, page ∉ s.pages c := by
    intro c hmem
    obtain ⟨h, hn⟩ := (hinv.held page).2 ⟨c, hmem⟩
    rw [hfresh] at hn
    exact nomatch hn
  have hmem : ∀ c' n, n ∈ Function.update s.pages c (s.pages c ++ [page]) c' ↔
      n ∈ s.pages c' ∨ (c' = c ∧ n = page) := by
    intro c' n
    rcases eq_or_ne c' c with rfl | hne
    · simp
    · simp [hne]
  refine ⟨fun n h hn => ?_, fun p hp => ?_, hinv.nodup, fun n => ?_, fun c₁ c₂ n h₁ h₂ => ?_,
    fun c' n rest hc => ?_⟩
  · rcases eq_or_ne n page with rfl | hne
    · obtain rfl : slab = h := by simpa using hn
      have hclear : ∀ i < slab.count,
          Bitmap.test (clearPage n s.mem) (bitmapAddr n) i = false := by
        intro i hi
        have hzero : ∀ a, addrToPage a = n → clearPage n s.mem a = (fun _ => 0) a :=
          fun a ha => if_pos ha
        rw [hsound.test_congr hzero hi]
        simp [Bitmap.test]
      refine ⟨hsound, hused.trans (Bitmap.count_eq_zero hclear).symm, fun i hi => ?_⟩
      have hnot : objAddr n slab i ∉ live :=
        fun hin => hnone _ hin (hsound.addrToPage_objAddr hi)
      simp [hclear i hi, hnot]
    · have hold : s.hdr n = some h := by simpa [hne] using hn
      have hbook := hinv.book n h hold
      refine hbook.congr (fun i hi => ?_) fun p _ => Iff.rfl
      exact hbook.sound.test_congr (fun a ha => (if_neg (ha ▸ hne)).symm) hi
  · obtain ⟨h, i, hn, hi, hobj⟩ := hinv.object_page hp
    exact ⟨addrToPage p, h, i, by rw [← hn]; exact Function.update_of_ne (hnone p hp) .., hi, hobj⟩
  · simp only [hmem]
    rcases eq_or_ne n page with rfl | hne
    · simp only [Function.update_self]
      exact iff_of_true ⟨slab, rfl⟩ ⟨c, Or.inr ⟨rfl, trivial⟩⟩
    · simpa [hne] using hinv.held n
  · rcases (hmem c₁ n).1 h₁ with h₁ | ⟨rfl, rfl⟩
    · rcases (hmem c₂ n).1 h₂ with h₂ | ⟨rfl, rfl⟩
      · exact hinv.owner _ _ _ h₁ h₂
      · exact absurd ‹n ∈ s.pages c₁› (hunheld c₁)
    · rcases (hmem c₂ n).1 h₂ with h₂ | ⟨rfl, -⟩
      · exact absurd h₂ (hunheld c₂)
      · rfl
  · have hold : ∀ n rest, s.pages c' = n :: rest →
        ∃ h, Function.update s.hdr page (some slab) n = some h ∧ h.magic = .slab := by
      intro n rest hpages
      obtain ⟨h, hn, hm⟩ := hinv.passed c' n rest hpages
      have hne : n ≠ page := by
        rintro rfl
        exact hunheld c' (by rw [hpages]; exact List.mem_cons_self ..)
      exact ⟨h, by rw [← hn]; exact Function.update_of_ne hne .., hm⟩
    rcases eq_or_ne c' c with rfl | hne
    · cases hpages : s.pages c' with
      | nil =>
        simp only [Function.update_self, hpages, List.nil_append, List.cons.injEq] at hc
        obtain ⟨rfl, -⟩ := hc
        exact ⟨slab, Function.update_self .., hmagic hpages⟩
      | cons n' rest' =>
        simp only [Function.update_self, hpages, List.cons_append, List.cons.injEq] at hc
        obtain ⟨rfl, -⟩ := hc
        exact hold n' rest' hpages
    · exact hold n rest (by simpa [hne] using hc)

/-! ### The operations -/

/-- **A cache is created** with one page. -/
theorem SlabInv.create [DecidableEq κ] (hinv : SlabInv s live) {c : κ} {objsize align : ℕ}
    {newpage : Option ℕ} {s' : SlabStore κ} (hnil : s.pages c = []) (hargs : SlabArgs objsize align)
    (hfresh : freshPage s newpage = true)
    (hcreate : createSlab c objsize align newpage s = some s') :
    ∃ n, newpage = some n ∧ s'.hdr = Function.update s.hdr n (some (slabLayout objsize align)) ∧
      s'.pages = Function.update s.pages c [n] ∧ SlabInv s' live := by
  have halign : align ≠ 0 := by
    obtain ⟨k, -, rfl⟩ := hargs.pow
    exact (Nat.two_pow_pos k).ne'
  rw [createSlab, if_neg (not_or.2 ⟨hargs.size.ne', halign⟩)] at hcreate
  obtain ⟨n, rfl, hs'⟩ := Option.bind_eq_some_iff.1 hcreate
  obtain rfl := Option.some.inj hs'
  have hnone : s.hdr n = none := by simpa [freshPage] using hfresh
  have hadd := hinv.addPage c hnone hargs.sound rfl fun _ => rfl
  rw [hnil] at hadd
  exact ⟨n, rfl, rfl, rfl, hadd⟩

/-- **An object is taken.**  It is the first object of the page that is not
live. -/
theorem SlabInv.take (hinv : SlabInv s live) (hpage : s.hdr page = some slab)
    (hroom : slab.used < slab.count) :
    ∃ i < slab.count, objAddr page slab i ∉ live ∧ (∀ j < i, objAddr page slab j ∈ live) ∧
      ∃ s', takeObj page s = some (some (objAddr page slab i), s') ∧
        s'.hdr = Function.update s.hdr page (some { slab with used := slab.used + 1 }) ∧
        s'.pages = s.pages ∧ SlabInv s' (objAddr page slab i :: live) := by
  have hbook := hinv.book page slab hpage
  have hsound := hbook.sound
  have hcount := hsound.count_le
  have hwrap : (slab.used + 1) % 2 ^ 16 = slab.used + 1 := Nat.mod_eq_of_lt (by omega)
  obtain ⟨i, hfirst⟩ := Bitmap.exists_firstClear (hbook.used ▸ hroom)
  obtain ⟨hi, hclear, hbefore⟩ := Bitmap.firstClear_eq_some hfirst
  have hnew : objAddr page slab i ∉ live := by
    rw [← hbook.bit i hi, hclear]
    exact Bool.false_ne_true
  have htake : takeObj page s = some (some (objAddr page slab i),
      { s with
        hdr := Function.update s.hdr page (some { slab with used := slab.used + 1 })
        mem := Bitmap.set s.mem (bitmapAddr page) i }) := by
    simp only [takeObj, hpage, Option.bind_eq_bind, Option.bind_some, hfirst, hwrap]
    rfl
  refine ⟨i, hi, hnew, fun j hj => (hbook.bit j (hj.trans hi)).1 (hbefore j hj), _, htake,
    rfl, rfl, ?_⟩
  refine hinv.touch hpage (fun a ha => ?_) (fun p hp => ?_) (fun p hp hat => ?_)
    (List.nodup_cons.2 ⟨hnew, hinv.nodup⟩) ?_ fun j hj => ?_
  · have hne : a ≠ bitmapAddr page + i / 8 := by
      rintro rfl
      exact ha (hsound.addrToPage_bitmap (by omega))
    exact (Bitmap.set_of_ne hne).symm
  · have hne : p ≠ objAddr page slab i := by
      rintro rfl
      exact hp (hsound.addrToPage_objAddr hi)
    simp [hne]
  · rcases List.mem_cons.1 hp with rfl | hp
    · exact ⟨i, hi, rfl⟩
    · obtain ⟨h, k, hn, hk, hobj⟩ := hinv.object_page hp
      rw [hat] at hn hobj
      obtain rfl : slab = h := Option.some.inj (hpage.symm.trans hn)
      exact ⟨k, hk, hobj⟩
  · rw [Bitmap.count_set hi hclear, ← hbook.used]
  · rw [Bitmap.test_set, List.mem_cons, Bool.or_eq_true, decide_eq_true_eq, hbook.bit j hj]
    exact or_congr ⟨fun h => by rw [h], hsound.objAddr_inj⟩ Iff.rfl

/-- A page that may serve has a free object. -/
theorem eligible_room {type : Zone} (h : eligible s type page = true) :
    ∃ slab, s.hdr page = some slab ∧ slab.used < slab.count := by
  unfold eligible at h
  split at h
  · rename_i slab hpage
    rw [Bool.and_eq_true, decide_eq_true_eq] at h
    exact ⟨slab, hpage, h.1⟩
  · exact nomatch h

/-- **The steps of an allocation**: the first eligible page of the list behind its head, or else
a new page. -/
theorem allocSlabObj_eq [DecidableEq κ] {c : κ} {passed : ℕ} {rest : List ℕ} (type : Zone)
    (newpage : Option ℕ) (hpages : s.pages c = passed :: rest) (hpassed : s.hdr passed = some slab)
    (hmagic : slab.magic = .slab) :
    allocSlabObj c type newpage s
      = match (s.pages c).find? (eligible s type) with
        | some page => takeObj page s
        | none =>
          match newpage with
          | none => some (none, s)
          | some page => takeObj page (_allocSlabObjNewpage c slab page s) := by
  simp only [allocSlabObj, hpages, hpassed, Option.bind_eq_bind, Option.bind_some, hmagic,
    ne_eq, not_true_eq_false, ↓reduceIte]
  rfl

/-- Two pages of one cache have their objects at the same offsets. -/
def Slab.SameLayout (h h' : Slab) : Prop :=
  h.objsize = h'.objsize ∧ h.startoff = h'.startoff ∧ h.count = h'.count

/-- **What a successful allocation did:** object `i` of a page of the cache, the
first one of the page that was not live, became live.  A page that is new has
the layout of the others. -/
structure Taken (c : κ) (page : ℕ) (slab : Slab) (i : ℕ) (s : SlabStore κ) (live : List ℕ)
    (s' : SlabStore κ) : Prop where
  lt : i < slab.count
  notLive : objAddr page slab i ∉ live
  first : ∀ j < i, objAddr page slab j ∈ live
  layout : ∃ passed ∈ s.pages c, ∃ h, s.hdr passed = some h ∧ slab.SameLayout h
  hdr : s'.hdr = Function.update s.hdr page (some { slab with used := slab.used + 1 })
  pages : ∀ c' n, n ∈ s'.pages c' ↔ n ∈ s.pages c' ∨ (c' = c ∧ n = page)
  inv : SlabInv s' (objAddr page slab i :: live)

/-- **`alloc_slab_obj` takes an object** of an eligible page, else of a new
page, else of none. -/
theorem SlabInv.alloc [DecidableEq κ] (hinv : SlabInv s live) {c : κ} (type : Zone)
    {newpage : Option ℕ} (hc : s.pages c ≠ []) (hfresh : freshPage s newpage = true) :
    (((∀ page ∈ s.pages c, eligible s type page = false) ∧ newpage = none) ∧
      allocSlabObj c type newpage s = some (none, s)) ∨
    (¬ ((∀ page ∈ s.pages c, eligible s type page = false) ∧ newpage = none) ∧
      ∃ page slab i s', allocSlabObj c type newpage s = some (some (objAddr page slab i), s') ∧
        Taken c page slab i s live s') := by
  obtain ⟨passed, rest, hpages⟩ := List.exists_cons_of_ne_nil hc
  obtain ⟨slab, hpassed, hmagic⟩ := hinv.passed c passed rest hpages
  have hin : passed ∈ s.pages c := by
    rw [hpages]
    exact List.mem_cons_self ..
  have hstart := allocSlabObj_eq type newpage hpages hpassed hmagic
  cases hfind : (s.pages c).find? (eligible s type) with
  | some page =>
    have hmem := List.mem_of_find?_eq_some hfind
    have hel := List.find?_some hfind
    obtain ⟨h, hpage, hroom⟩ := eligible_room hel
    obtain ⟨i, hi, hnew, hfirst, s', htake, hhdr, hsame, hinv'⟩ := hinv.take hpage hroom
    refine Or.inr ⟨fun hall => ?_, page, h, i, s', hstart.trans (by rw [hfind, ← htake]),
      hi, hnew, hfirst, ⟨page, hmem, h, hpage, rfl, rfl, rfl⟩, hhdr, fun c' n => ?_, hinv'⟩
    · rw [hall.1 page hmem] at hel
      exact nomatch hel
    · rw [hsame]
      refine ⟨Or.inl, fun hn => hn.elim id ?_⟩
      rintro ⟨rfl, rfl⟩
      exact hmem
  | none =>
    have hnone : ∀ page ∈ s.pages c, eligible s type page = false :=
      fun page hpage => by simpa using List.find?_eq_none.1 hfind page hpage
    cases newpage with
    | none => exact Or.inl ⟨⟨hnone, rfl⟩, hstart.trans (by rw [hfind])⟩
    | some page =>
      have hunused : s.hdr page = none := by simpa [freshPage] using hfresh
      have hsound := (hinv.book passed slab hpassed).sound
      have hsound' : Slab.Sound { slab with magic := .cont, used := 0 } :=
        ⟨hsound.objsize_pos, hsound.count_pos, hsound.behind, hsound.inside⟩
      have hadd := hinv.addPage c hunused hsound' rfl (fun hnil => absurd hnil hc)
      obtain ⟨i, hi, hnew, hfirst, s', htake, hhdr, hsame, hinv'⟩ :=
        hadd.take (Function.update_self ..) hsound.count_pos
      have hnotNone : ¬ ((∀ page ∈ s.pages c, eligible s type page = false) ∧
          some page = none) := fun hall => nomatch hall.2
      refine Or.inr ⟨hnotNone, page, _, i, s', hstart.trans (by rw [hfind]; exact htake),
        hi, hnew, hfirst, ⟨passed, hin, slab, hpassed, rfl, rfl, rfl⟩, ?_, fun c' n => ?_, hinv'⟩
      · rw [hhdr, Function.update_idem]
      · rw [hsame]
        rcases eq_or_ne c' c with rfl | hne
        · simp
        · simp [hne]

/-- **A live object is given back:** its bit is cleared. -/
theorem SlabInv.free (hinv : SlabInv s live) {p : ℕ} (hp : p ∈ live) :
    ∃ slab i, s.hdr (addrToPage p) = some slab ∧ i < slab.count ∧
      p = objAddr (addrToPage p) slab i ∧ ∃ s', freeSlabObj p s = some s' ∧
        s'.hdr = Function.update s.hdr (addrToPage p) (some { slab with used := slab.used - 1 }) ∧
        s'.pages = s.pages ∧ s'.mem = Bitmap.clear s.mem (bitmapAddr (addrToPage p)) i ∧
        SlabInv s' (live.erase p) := by
  obtain ⟨slab, i, hpage, hi, hobj⟩ := hinv.object_page hp
  have hbook := hinv.book _ slab hpage
  have hsound := hbook.sound
  have hset : Bitmap.test s.mem (bitmapAddr (addrToPage p)) i = true :=
    (hbook.bit i hi).2 (hobj ▸ hp)
  have hcount := Bitmap.count_clear hi hset
  have hle := Bitmap.count_le s.mem (bitmapAddr (addrToPage p)) slab.count
  have hmax := hsound.count_le
  rw [← hbook.used] at hcount hle
  have hwrap : (slab.used + (2 ^ 16 - 1)) % 2 ^ 16 = slab.used - 1 := by omega
  have hidx : (p - pageToAddr (addrToPage p) - slab.startoff) / slab.objsize = i := by
    conv_lhs => rw [hobj]
    rw [hsound.addrToPage_objAddr hi, hsound.objidx]
  have hfree : freeSlabObj p s = some { s with
      hdr := Function.update s.hdr (addrToPage p) (some { slab with used := slab.used - 1 })
      mem := Bitmap.clear s.mem (bitmapAddr (addrToPage p)) i } := by
    simp only [freeSlabObj, hpage, Option.bind_eq_bind, Option.bind_some, hwrap, hidx]
    rfl
  refine ⟨slab, i, hpage, hi, hobj, _, hfree, rfl, rfl, rfl, ?_⟩
  refine hinv.touch hpage (fun a ha => ?_) (fun q hq => ?_) (fun q hq hat => ?_)
    (hinv.nodup.erase p) ?_ fun j hj => ?_
  · have hne : a ≠ bitmapAddr (addrToPage p) + i / 8 := by
      rintro rfl
      exact ha (hsound.addrToPage_bitmap (by omega))
    exact (Bitmap.clear_of_ne hne).symm
  · have hne : q ≠ p := by
      rintro rfl
      exact hq rfl
    exact List.mem_erase_of_ne hne
  · obtain ⟨h, k, hn, hk, hqobj⟩ := hinv.object_page (List.mem_of_mem_erase hq)
    rw [hat] at hn hqobj
    obtain rfl : slab = h := Option.some.inj (hpage.symm.trans hn)
    exact ⟨k, hk, hqobj⟩
  · omega
  · rw [Bitmap.test_clear, hinv.nodup.mem_erase_iff, Bool.and_eq_true, Bool.not_eq_true',
      decide_eq_false_iff_not, hbook.bit j hj]
    refine and_congr (not_congr ⟨fun h => by rw [h, ← hobj], fun h => ?_⟩) Iff.rfl
    exact hsound.objAddr_inj (h.trans hobj)

/-- **Only the bitmaps matter** of what the memory holds. -/
theorem SlabInv.mem_congr (hinv : SlabInv s live) {m : Bitmap.Mem}
    (hmem : ∀ a, inBook s a = true → m a = s.mem a) : SlabInv { s with mem := m } live := by
  refine ⟨fun n h hn => ?_, hinv.object, hinv.nodup, hinv.held, hinv.owner, hinv.passed⟩
  have hbook := hinv.book n h hn
  refine hbook.congr (fun i hi => ?_) fun p _ => Iff.rfl
  refine Bitmap.test_congr (fun k hk => (hmem _ ?_).symm) hi
  unfold inBook
  rw [hbook.sound.addrToPage_bitmap hk, hn]
  exact decide_eq_true (by omega)

/-- **A caller stores off the headers and the bitmaps.** -/
theorem SlabInv.write (hinv : SlabInv s live) {a : ℕ} (ha : inBook s a = false) (v : BitVec 8) :
    SlabInv { s with mem := Function.update s.mem a v } live := by
  refine hinv.mem_congr fun b hb => Function.update_of_ne ?_ ..
  rintro rfl
  rw [ha] at hb
  exact nomatch hb

/-! ### Runs keep the invariant -/

/-- One event keeps the book-keeping. -/
theorem slabStep_inv [DecidableEq κ] {t u : SlabState κ} {e : SlabEvent κ}
    (hstep : slabStep t e = some u) (hinv : SlabInv t.store t.live) : SlabInv u.store u.live := by
  cases e with
  | create c objsize align page =>
    simp only [slabStep] at hstep
    split_ifs at hstep with hcond
    obtain ⟨hnil, hargs, hfresh⟩ := hcond
    obtain rfl := Option.some.inj hstep
    cases hcreate : createSlab c objsize align page t.store with
    | none => exact hinv
    | some s' =>
      obtain ⟨n, -, -, -, hinv'⟩ := hinv.create hnil hargs hfresh hcreate
      exact hinv'
  | alloc c type page =>
    simp only [slabStep] at hstep
    split_ifs at hstep with hfresh
    obtain ⟨r, halloc, rfl⟩ := Option.map_eq_some_iff.1 hstep
    by_cases hc : t.store.pages c = []
    · obtain rfl : (none, t.store) = r := by simpa [allocSlabObj, hc] using halloc
      exact hinv
    · rcases hinv.alloc type hc hfresh with ⟨-, heq⟩ | ⟨-, page, slab, i, s', heq, htaken⟩
      · obtain rfl := Option.some.inj (heq.symm.trans halloc)
        exact hinv
      · obtain rfl := Option.some.inj (heq.symm.trans halloc)
        exact htaken.inv
  | free ptr =>
    simp only [slabStep] at hstep
    split_ifs at hstep with hlive
    obtain ⟨slab, i, -, -, -, s', hfree, -, -, -, hinv'⟩ := hinv.free hlive
    rw [hfree] at hstep
    obtain rfl := Option.some.inj hstep
    exact hinv'
  | write a v =>
    simp only [slabStep] at hstep
    split_ifs at hstep with ha
    obtain rfl := Option.some.inj hstep
    exact hinv.write (by simpa using ha) v

/-- The book-keeping is right in every state of a run. -/
theorem slabRun_inv [DecidableEq κ] {mem : Bitmap.Mem} {ls : List (SlabEvent κ)} {t : SlabState κ}
    (hrun : Run (fun t e u => slabStep t e = some u) (.init mem) ls t) :
    SlabInv t.store t.live :=
  hrun.invariant (P := fun t => SlabInv t.store t.live) (SlabInv.init mem)
    fun _ _ _ hinv hstep => slabStep_inv hstep hinv

/-- **The counter counts the live objects of the page.** -/
theorem SlabInv.used_eq_live (hinv : SlabInv s live) (hpage : s.hdr page = some slab) :
    slab.used = (live.filter fun p => addrToPage p = page).length := by
  have hbook := hinv.book page slab hpage
  have hsound := hbook.sound
  have hinj : Function.Injective (objAddr page slab) := fun _ _ => hsound.objAddr_inj
  have hperm : (live.filter fun p => addrToPage p = page).Perm
      (((List.range slab.count).filter (Bitmap.test s.mem (bitmapAddr page))).map
        (objAddr page slab)) := by
    refine (List.perm_ext_iff_of_nodup (hinv.nodup.filter _)
      ((List.nodup_range.filter _).map hinj)).2 fun p => ?_
    simp only [List.mem_filter, List.mem_map, List.mem_range, decide_eq_true_eq]
    constructor
    · rintro ⟨hp, hat⟩
      obtain ⟨h, i, hn, hi, hobj⟩ := hinv.object_page hp
      rw [hat] at hn hobj
      obtain rfl : slab = h := Option.some.inj (hpage.symm.trans hn)
      exact ⟨i, ⟨hi, (hbook.bit i hi).2 (hobj ▸ hp)⟩, hobj.symm⟩
    · rintro ⟨i, ⟨hi, hset⟩, rfl⟩
      exact ⟨(hbook.bit i hi).1 hset, hsound.addrToPage_objAddr hi⟩
  rw [hperm.length_eq, List.length_map, ← List.countP_eq_length_filter]
  exact hbook.used

/-- **The bookkeeping of the slab allocator.**  However callers create caches,
allocate, free and store off the headers and bitmaps, and wherever a page
allocation fails: on every page of a cache the counter is the number of bits set
and the number of live objects, and a bit is set exactly while its object is
live; an allocation is never a `BUG_ON`, returns no live object, and returns
nothing exactly when no page of the cache was eligible and there was no new one;
and `free_slab_obj` clears the bit of the object and no other. -/
theorem slab_bookkeeping [DecidableEq κ] {mem : Bitmap.Mem} {ls : List (SlabEvent κ)}
    {t : SlabState κ} (hrun : Run (fun t e u => slabStep t e = some u) (.init mem) ls t) (c : κ) :
    (∀ page ∈ t.store.pages c, ∃ slab, t.store.hdr page = some slab ∧
      slab.used = Bitmap.count t.store.mem (bitmapAddr page) slab.count ∧
      slab.used = (t.live.filter fun p => addrToPage p = page).length ∧
      slab.used ≤ slab.count ∧
      ∀ i < slab.count,
        (Bitmap.test t.store.mem (bitmapAddr page) i = true ↔ objAddr page slab i ∈ t.live)) ∧
    (t.store.pages c ≠ [] → ∀ type newpage, freshPage t.store newpage = true →
      ∃ r s', allocSlabObj c type newpage t.store = some (r, s') ∧
        (r = none ↔
          (∀ page ∈ t.store.pages c, eligible t.store type page = false) ∧ newpage = none) ∧
        ∀ p, r = some p → p ∉ t.live) ∧
    (∀ p ∈ t.live, ∃ slab i s', t.store.hdr (addrToPage p) = some slab ∧ i < slab.count ∧
      p = objAddr (addrToPage p) slab i ∧ freeSlabObj p t.store = some s' ∧
      ∀ page slab', t.store.hdr page = some slab' → ∀ j < slab'.count,
        Bitmap.test s'.mem (bitmapAddr page) j
          = (Bitmap.test t.store.mem (bitmapAddr page) j
              && !decide (page = addrToPage p ∧ j = i))) := by
  have hinv := slabRun_inv hrun
  refine ⟨fun page hpage => ?_, fun hc type newpage hfresh => ?_, fun p hp => ?_⟩
  · obtain ⟨slab, hslab⟩ := (hinv.held page).2 ⟨c, hpage⟩
    have hbook := hinv.book page slab hslab
    exact ⟨slab, hslab, hbook.used, hinv.used_eq_live hslab,
      hbook.used ▸ Bitmap.count_le .., hbook.bit⟩
  · rcases hinv.alloc type hc hfresh with ⟨hfull, heq⟩ | ⟨hroom, page, slab, i, s', heq, htaken⟩
    · exact ⟨none, _, heq, iff_of_true rfl hfull,
        fun p hp => absurd hp.symm (Option.some_ne_none p)⟩
    · exact ⟨_, s', heq, iff_of_false (Option.some_ne_none _) hroom,
        fun p hp => Option.some.inj hp ▸ htaken.notLive⟩
  · obtain ⟨slab, i, hslab, hi, hobj, s', hfree, -, -, hmem, -⟩ := hinv.free hp
    refine ⟨slab, i, s', hslab, hi, hobj, hfree, fun page slab' hslab' j hj => ?_⟩
    rw [hmem]
    by_cases hpage : page = addrToPage p
    · subst hpage
      rw [Bitmap.test_clear, Bool.and_comm]
      simp
    · have hsame : ∀ a, addrToPage a = page →
          Bitmap.clear t.store.mem (bitmapAddr (addrToPage p)) i a = t.store.mem a := by
        intro a ha
        refine Bitmap.clear_of_ne ?_
        rintro rfl
        have hsound := (hinv.book _ slab hslab).sound
        exact hpage (ha.symm.trans (hsound.addrToPage_bitmap (by omega)))
      rw [(hinv.book page slab' hslab').sound.test_congr hsame hj]
      simp [hpage]

/-- Two pages of a cache of 512-byte objects: the third object is asked for in
the other zone and fails, then comes from a new page. -/
theorem slab_bookkeeping_twoPages :
    ∃ t : SlabState Unit, Run (fun t e u => slabStep t e = some u) (.init fun _ => 0xff)
        [.create () 512 8 (some 600000), .alloc () .normal none, .alloc () .normal none,
          .alloc () .low none, .alloc () .low (some 7), .write 2457600100 0,
          .free 2457600048] t ∧
      t.live = [28720, 2457600560] ∧
      (∀ page ∈ t.store.pages (), ∃ slab, t.store.hdr page = some slab ∧
        slab.used = Bitmap.count t.store.mem (bitmapAddr page) slab.count ∧
        slab.used = (t.live.filter fun p => addrToPage p = page).length ∧
        slab.used ≤ slab.count ∧
        ∀ i < slab.count,
          (Bitmap.test t.store.mem (bitmapAddr page) i = true ↔
            objAddr page slab i ∈ t.live)) := by
  have hlive : ([.create () 512 8 (some 600000), .alloc () .normal none, .alloc () .normal none,
      .alloc () .low none, .alloc () .low (some 7), .write 2457600100 0,
      .free 2457600048].foldlM slabStep (SlabState.init fun _ => 0xff)).map SlabState.live
      = some [28720, 2457600560] := by decide +kernel
  obtain ⟨t, ht, hl⟩ := Option.map_eq_some_iff.1 hlive
  have hrun := Run.of_foldlM ht
  exact ⟨t, hrun, hl, (slab_bookkeeping hrun ()).1⟩

end Hvf
