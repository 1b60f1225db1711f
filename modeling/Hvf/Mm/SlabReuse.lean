/-
# When a slab cache asks for a page

`cp/mm/slab.c`.  `alloc_slab_obj` takes a page of the cache only where `ZONE_TYPE` of the
page equals the type asked for.  For `ZONE_LOW` these are the pages that satisfy the
request; a `ZONE_NORMAL` request would be satisfied by every page, and the low ones are
passed over (`reusesPages_iff`).

The runs here are those of callers that may store anywhere, also over a bitmap that their
object overlaps: what is said is about the `used` counters and the list of pages, which
`CacheInv` keeps up with.
-/

import Hvf.Mm.SlabBook

namespace Hvf

open StepRun

variable {κ : Type}

/-! ### The request -/

/-- The page counts fewer objects than it has. -/
def HasFree (s : SlabStore κ) (page : ℕ) : Prop :=
  ∃ slab, s.hdr page = some slab ∧ slab.used < slab.count

/-- Any page satisfies a `ZONE_NORMAL` request, a page below 2GB a `ZONE_LOW` request. -/
def Satisfies (type : Zone) (page : ℕ) : Prop := type = .low → isLowZone page = true

section
variable [DecidableEq κ]

/-- `alloc_slab_obj` calls `alloc_pages`: a page that it returns ends up in the cache. -/
def AsksPage (c : κ) (type : Zone) (s : SlabStore κ) : Prop :=
  ∃ page r s', allocSlabObj c type (some page) s = some (r, s') ∧
    s'.pages c = s.pages c ++ [page]

/-- A page is asked for only if no page of the cache that satisfies the request has a
free object. -/
def ReusesPages (c : κ) (type : Zone) (s : SlabStore κ) : Prop :=
  AsksPage c type s → ∀ page ∈ s.pages c, Satisfies type page → ¬ HasFree s page

/-- No page below 2GB has a free object that is passed over: one at or above 2GB is
taken, or there is none below. -/
def NothingPassed (c : κ) (type : Zone) (s : SlabStore κ) : Prop :=
  type = .normal → (∃ page ∈ s.pages c, isLowZone page = false ∧ HasFree s page) ∨
    ∀ page ∈ s.pages c, isLowZone page = true → ¬ HasFree s page

/-! ### Runs -/

/-- One call, or one store of a caller wherever it is. -/
def slabUse (t : SlabState κ) : SlabEvent κ → Option (SlabState κ)
  | .create c objsize align page => slabStep t (.create c objsize align page)
  | .alloc c type page => slabStep t (.alloc c type page)
  | .free ptr => slabStep t (.free ptr)
  | .write a v => some { t with store := { t.store with mem := Function.update t.store.mem a v } }

/-- The steps of `slabUse` as a relation. -/
def SlabUse (t : SlabState κ) (e : SlabEvent κ) (u : SlabState κ) : Prop := slabUse t e = some u

/-- Where the event is a call of `alloc_slab_obj`, it passes over no page. -/
def CallPassesNothing (t : SlabState κ) : SlabEvent κ → Prop
  | .alloc c type _ => NothingPassed c type t.store
  | _ => True

/-- Nothing is given back, and the objects of the cache are asked for in `ZONE_NORMAL`. -/
def NormalOnly (c : κ) : SlabEvent κ → Prop
  | .alloc c' type _ => c' = c → type = .normal
  | .free _ => False
  | _ => True

/-- The number of live objects of a cache. -/
def SlabState.liveOf (c : κ) (t : SlabState κ) : ℕ :=
  t.live.countP fun p => (t.store.pages c).contains (addrToPage p)

/-! ### The invariant -/

/-- The counter of a page is the number of live objects there, and the pages of a cache
are its own and have one layout. -/
structure CacheInv (s : SlabStore κ) (live : List ℕ) : Prop where
  header : ∀ c, ∀ page ∈ s.pages c, ∃ slab, s.hdr page = some slab
  sound : ∀ page slab, s.hdr page = some slab → slab.Sound ∧ slab.used ≤ slab.count
  used : ∀ page slab, s.hdr page = some slab →
    slab.used = live.countP fun p => addrToPage p = page
  object : ∀ p ∈ live, ∃ slab, s.hdr (addrToPage p) = some slab
  layout : ∀ c, ∀ page ∈ s.pages c, ∀ page' ∈ s.pages c, ∀ slab slab',
    s.hdr page = some slab → s.hdr page' = some slab' → slab.count = slab'.count
  nodup : ∀ c, (s.pages c).Nodup
  owner : ∀ c c' page, page ∈ s.pages c → page ∈ s.pages c' → c = c'
  passed : ∀ c page rest, s.pages c = page :: rest →
    ∃ slab, s.hdr page = some slab ∧ slab.magic = .slab

end

variable {s s' : SlabStore κ} {live : List ℕ} {page : ℕ} {slab : Slab} {c : κ}

/-- Without a page nothing is used. -/
theorem CacheInv.init (mem : Bitmap.Mem) :
    CacheInv (SlabState.init (κ := κ) mem).store (SlabState.init (κ := κ) mem).live where
  header _ _ h := absurd h List.not_mem_nil
  sound _ _ h := nomatch h
  used _ _ h := nomatch h
  object _ h := absurd h List.not_mem_nil
  layout _ _ h := absurd h List.not_mem_nil
  nodup _ := List.nodup_nil
  owner _ _ _ h := absurd h List.not_mem_nil
  passed _ _ _ h := nomatch h

/-- A header of the cache keeps its layout, and the live objects of its page change. -/
theorem CacheInv.touch (hinv : CacheInv s live) (hpage : s.hdr page = some slab) {used : ℕ}
    {live' : List ℕ} (mem : Bitmap.Mem) (hle : used ≤ slab.count)
    (hused : used = live'.countP fun p => addrToPage p = page)
    (hother : ∀ n, n ≠ page → (live'.countP fun p => addrToPage p = n) =
      live.countP fun p => addrToPage p = n)
    (hobject : ∀ p ∈ live', p ∈ live ∨ addrToPage p = page) :
    CacheInv { s with hdr := Function.update s.hdr page (some { slab with used }), mem } live' := by
  have hold : ∀ n h, Function.update s.hdr page (some { slab with used }) n = some h →
      ∃ h', s.hdr n = some h' ∧ h.SameLayout h' := by
    intro n h hn
    rcases eq_or_ne n page with rfl | hne
    · rw [Function.update_self] at hn
      obtain rfl := Option.some.inj hn
      exact ⟨slab, hpage, rfl, rfl, rfl⟩
    · rw [Function.update_of_ne hne] at hn
      exact ⟨h, hn, rfl, rfl, rfl⟩
  have hnew : ∀ n, (∃ h, s.hdr n = some h) →
      ∃ h, Function.update s.hdr page (some { slab with used }) n = some h := by
    rintro n ⟨h, hn⟩
    rcases eq_or_ne n page with rfl | hne
    · exact ⟨_, Function.update_self ..⟩
    · exact ⟨h, by rw [← hn]; exact Function.update_of_ne hne ..⟩
  constructor
  · exact fun c n hn => hnew n (hinv.header c n hn)
  · intro n h hn
    rcases eq_or_ne n page with rfl | hne
    · obtain rfl : { slab with used } = h := by simpa using hn
      obtain ⟨hsound, -⟩ := hinv.sound n slab hpage
      exact ⟨⟨hsound.objsize_pos, hsound.count_pos, hsound.behind, hsound.inside⟩, hle⟩
    · exact hinv.sound n h (by rw [← hn]; exact (Function.update_of_ne hne ..).symm)
  · intro n h hn
    rcases eq_or_ne n page with rfl | hne
    · obtain rfl : { slab with used } = h := by simpa using hn
      exact hused
    · rw [hother n hne]
      exact hinv.used n h (by rw [← hn]; exact (Function.update_of_ne hne ..).symm)
  · intro p hp
    rcases hobject p hp with hlive | hat
    · exact hnew _ (hinv.object p hlive)
    · exact hnew _ ⟨slab, hat ▸ hpage⟩
  · intro c n hn n' hn' h h' hh hh'
    obtain ⟨k, hk, -, -, hcount⟩ := hold n h hh
    obtain ⟨k', hk', -, -, hcount'⟩ := hold n' h' hh'
    rw [hcount, hcount']
    exact hinv.layout c n hn n' hn' k k' hk hk'
  · exact hinv.nodup
  · exact hinv.owner
  · intro c n rest hc
    obtain ⟨h, hn, hmagic⟩ := hinv.passed c n rest hc
    rcases eq_or_ne n page with rfl | hne
    · obtain rfl : slab = h := Option.some.inj (hpage.symm.trans hn)
      exact ⟨_, Function.update_self .., hmagic⟩
    · exact ⟨h, by rw [← hn]; exact Function.update_of_ne hne .., hmagic⟩

/-- A cache gets a page on which no object is live. -/
theorem CacheInv.addPage [DecidableEq κ] (hinv : CacheInv s live) (c : κ)
    (hfresh : s.hdr page = none) (hsound : slab.Sound) (hused : slab.used = 0)
    (hmagic : s.pages c = [] → slab.magic = .slab)
    (hlayout : ∀ n ∈ s.pages c, ∀ h, s.hdr n = some h → h.count = slab.count)
    (mem : Bitmap.Mem) :
    CacheInv { hdr := Function.update s.hdr page (some slab)
               pages := Function.update s.pages c (s.pages c ++ [page]), mem } live := by
  have hunheld : ∀ c, page ∉ s.pages c := by
    intro c hmem
    obtain ⟨h, hn⟩ := hinv.header c page hmem
    rw [hfresh] at hn
    exact nomatch hn
  have hunused : ∀ p ∈ live, addrToPage p ≠ page := by
    intro p hp hat
    obtain ⟨h, hn⟩ := hinv.object p hp
    rw [hat, hfresh] at hn
    exact nomatch hn
  have hmem : ∀ c' n, n ∈ Function.update s.pages c (s.pages c ++ [page]) c' ↔
      n ∈ s.pages c' ∨ (c' = c ∧ n = page) := by
    intro c' n
    rcases eq_or_ne c' c with rfl | hne
    · simp
    · simp [hne]
  have hkept : ∀ n, n ≠ page → Function.update s.hdr page (some slab) n = s.hdr n :=
    fun n hne => Function.update_of_ne hne ..
  have hne : ∀ c' n, n ∈ s.pages c' → n ≠ page := by
    rintro c' n hn rfl
    exact hunheld c' hn
  constructor
  · intro c' n hn
    rcases (hmem c' n).1 hn with hn | ⟨-, rfl⟩
    · obtain ⟨h, hh⟩ := hinv.header c' n hn
      exact ⟨h, by rw [← hh]; exact hkept n (hne c' n hn)⟩
    · exact ⟨slab, Function.update_self ..⟩
  · intro n h hn
    rcases eq_or_ne n page with rfl | hne
    · obtain rfl : slab = h := by simpa using hn
      exact ⟨hsound, hused ▸ Nat.zero_le _⟩
    · exact hinv.sound n h (by rw [← hn]; exact (hkept n hne).symm)
  · intro n h hn
    rcases eq_or_ne n page with rfl | hne
    · obtain rfl : slab = h := by simpa using hn
      refine hused.trans (List.countP_eq_zero.2 fun p hp hat => ?_).symm
      exact hunused p hp (of_decide_eq_true hat)
    · exact hinv.used n h (by rw [← hn]; exact (hkept n hne).symm)
  · intro p hp
    obtain ⟨h, hn⟩ := hinv.object p hp
    exact ⟨h, by rw [← hn]; exact hkept _ (hunused p hp)⟩
  · have hsame : ∀ c' n, n ∈ s.pages c' → ∀ h, Function.update s.hdr page (some slab) n = some h →
        s.hdr n = some h := fun c' n hn h hh => by rw [← hh]; exact (hkept n (hne c' n hn)).symm
    have hself : ∀ h, Function.update s.hdr page (some slab) page = some h → slab = h :=
      fun h hh => by simpa using hh
    intro c' n hn n' hn' h h' hh hh'
    rcases (hmem c' n).1 hn with hin | ⟨hc, hpage⟩
    · have hold := hsame c' n hin h hh
      rcases (hmem c' n').1 hn' with hin' | ⟨hc', hpage'⟩
      · exact hinv.layout c' n hin n' hin' h h' hold (hsame c' n' hin' h' hh')
      · rw [← hself h' (hpage' ▸ hh')]
        exact hlayout n (hc' ▸ hin) h hold
    · rw [← hself h (hpage ▸ hh)]
      rcases (hmem c' n').1 hn' with hin' | ⟨-, hpage'⟩
      · exact (hlayout n' (hc ▸ hin') h' (hsame c' n' hin' h' hh')).symm
      · rw [← hself h' (hpage' ▸ hh')]
  · intro c'
    dsimp only
    rcases eq_or_ne c' c with rfl | hne
    · rw [Function.update_self]
      refine List.nodup_append.2 ⟨hinv.nodup c', List.nodup_singleton _, fun a ha b hb => ?_⟩
      rw [List.mem_singleton.1 hb]
      exact fun heq => hunheld c' (heq ▸ ha)
    · rw [Function.update_of_ne hne]
      exact hinv.nodup c'
  · intro c₁ c₂ n h₁ h₂
    rcases (hmem c₁ n).1 h₁ with hin | ⟨hc, hpage⟩
    · rcases (hmem c₂ n).1 h₂ with hin' | ⟨-, hpage'⟩
      · exact hinv.owner _ _ _ hin hin'
      · exact absurd (hpage' ▸ hin) (hunheld c₁)
    · rcases (hmem c₂ n).1 h₂ with hin' | ⟨hc', -⟩
      · exact absurd (hpage ▸ hin') (hunheld c₂)
      · exact hc.trans hc'.symm
  · intro c' n rest hc
    dsimp only at hc
    rcases eq_or_ne c' c with rfl | hne'
    · rw [Function.update_self] at hc
      cases hpages : s.pages c' with
      | nil =>
        rw [hpages, List.nil_append, List.cons.injEq] at hc
        obtain ⟨rfl, -⟩ := hc
        exact ⟨slab, Function.update_self .., hmagic hpages⟩
      | cons n' rest' =>
        rw [hpages, List.cons_append, List.cons.injEq] at hc
        obtain ⟨rfl, -⟩ := hc
        obtain ⟨h, hn, hm⟩ := hinv.passed c' n' rest' hpages
        have hin : n' ∈ s.pages c' := by
          rw [hpages]
          exact List.mem_cons_self
        exact ⟨h, by rw [← hn]; exact hkept n' (hne c' n' hin), hm⟩
    · rw [Function.update_of_ne hne'] at hc
      obtain ⟨h, hn, hm⟩ := hinv.passed c' n rest hc
      have hin : n ∈ s.pages c' := by
        rw [hc]
        exact List.mem_cons_self
      exact ⟨h, by rw [← hn]; exact hkept n (hne c' n hin), hm⟩

/-! ### The operations -/

/-- Every header keeps the number of its objects. -/
def KeepsCount (s s' : SlabStore κ) : Prop :=
  ∀ n h, s.hdr n = some h → ∃ h', s'.hdr n = some h' ∧ h'.count = h.count

/-- A change of a page's header and bytes that leaves its counts keeps the counts. -/
theorem keepsCount_touch (hpage : s.hdr page = some slab) (used : ℕ) (mem : Bitmap.Mem) :
    KeepsCount s
      { s with hdr := Function.update s.hdr page (some { slab with used }), mem } := by
  intro n h hn
  rcases eq_or_ne n page with rfl | hne
  · obtain rfl : slab = h := Option.some.inj (hpage.symm.trans hn)
    exact ⟨_, Function.update_self .., rfl⟩
  · exact ⟨h, by rw [← hn]; exact Function.update_of_ne hne .., rfl⟩

/-- The bitmap of a new page is clear. -/
theorem Slab.Sound.firstClear_clearPage (hsound : slab.Sound) (page : ℕ) (mem : Bitmap.Mem) :
    ∃ i, Bitmap.firstClear (clearPage page mem) (bitmapAddr page) slab.count = some i := by
  have hclear : ∀ i < slab.count,
      Bitmap.test (clearPage page mem) (bitmapAddr page) i = false := by
    intro i hi
    have hzero : ∀ a, addrToPage a = page → clearPage page mem a = (fun _ => 0) a :=
      fun a ha => if_pos ha
    rw [hsound.test_congr hzero hi]
    simp [Bitmap.test]
  have hempty := Bitmap.count_eq_zero hclear
  exact Bitmap.exists_firstClear (hempty ▸ hsound.count_pos)

/-- One live object more counts on its page. -/
theorem countP_page_cons (p : ℕ) (live : List ℕ) (n : ℕ) :
    ((p :: live).countP fun q => addrToPage q = n) =
      (live.countP fun q => addrToPage q = n) + if addrToPage p = n then 1 else 0 := by
  rw [List.countP_cons]
  simp only [decide_eq_true_eq]

/-- **An object is taken**, or the page has no clear bit. -/
theorem CacheInv.take (hinv : CacheInv s live) (hpage : s.hdr page = some slab)
    (hroom : slab.used < slab.count) {r : Option ℕ} (htake : takeObj page s = some (r, s')) :
    (r = none ∧ s' = s ∧ Bitmap.firstClear s.mem (bitmapAddr page) slab.count = none) ∨
      ∃ p, r = some p ∧ addrToPage p = page ∧ s'.pages = s.pages ∧ KeepsCount s s' ∧
        CacheInv s' (p :: live) := by
  obtain ⟨hsound, -⟩ := hinv.sound page slab hpage
  have hcount := hsound.count_le
  have hwrap : (slab.used + 1) % 2 ^ 16 = slab.used + 1 := Nat.mod_eq_of_lt (by omega)
  simp only [takeObj, hpage, Option.bind_eq_bind, Option.bind_some, hwrap] at htake
  cases hfirst : Bitmap.firstClear s.mem (bitmapAddr page) slab.count with
  | none =>
    rw [hfirst] at htake
    obtain ⟨rfl, rfl⟩ := Prod.mk.inj (Option.some.inj htake)
    exact Or.inl ⟨rfl, rfl, rfl⟩
  | some i =>
    rw [hfirst] at htake
    obtain ⟨rfl, rfl⟩ := Prod.mk.inj (Option.some.inj htake)
    obtain ⟨hi, -, -⟩ := Bitmap.firstClear_eq_some hfirst
    have hat : addrToPage (objAddr page slab i) = page := hsound.addrToPage_objAddr hi
    refine Or.inr ⟨objAddr page slab i, rfl, hat, rfl, keepsCount_touch hpage _ _, ?_⟩
    refine hinv.touch hpage _ hroom ?_ (fun n hne => ?_) fun q hq => ?_
    · rw [countP_page_cons, if_pos hat, hinv.used page slab hpage]
    · rw [countP_page_cons, hat, if_neg hne.symm, Nat.add_zero]
    · rcases List.mem_cons.1 hq with rfl | hq
      · exact Or.inr hat
      · exact Or.inl hq

/-- An object that was taken is given back: the page is as it was before. -/
theorem takeObj_free (hsound : slab.Sound) (hpage : s.hdr page = some slab)
    (hroom : slab.used < slab.count) {p : ℕ} (htake : takeObj page s = some (some p, s')) :
    p ≠ 0 ∧ freeSlabObj p s' = some s := by
  have hcount := hsound.count_le
  have hwrap : (slab.used + 1) % 2 ^ 16 = slab.used + 1 := Nat.mod_eq_of_lt (by omega)
  simp only [takeObj, hpage, Option.bind_eq_bind, Option.bind_some, hwrap] at htake
  cases hfirst : Bitmap.firstClear s.mem (bitmapAddr page) slab.count with
  | none =>
    rw [hfirst] at htake
    cases (Prod.mk.inj (Option.some.inj htake)).1
  | some i =>
    rw [hfirst] at htake
    obtain ⟨hp, rfl⟩ := Prod.mk.inj (Option.some.inj htake)
    obtain rfl := Option.some.inj hp
    obtain ⟨hi, hbit, -⟩ := Bitmap.firstClear_eq_some hfirst
    have hat : addrToPage (objAddr page slab i) = page := hsound.addrToPage_objAddr hi
    have hbehind := hsound.behind
    refine ⟨?_, ?_⟩
    · rw [objAddr]
      rw [sizeofSlab] at hbehind
      omega
    · have hunwrap : (slab.used + 1 + (2 ^ 16 - 1)) % 2 ^ 16 = slab.used := by omega
      simp only [freeSlabObj, hat, Function.update_self, Option.bind_eq_bind, Option.bind_some,
        hunwrap, hsound.objidx, Bitmap.clear_set hbit, Function.update_idem]
      rw [show ({ slab with used := slab.used } : Slab) = slab from rfl, ← hpage,
        Function.update_eq_self]
      rfl

/-- Taking an object from a page with a header ends, and moves no page. -/
theorem takeObj_pages (hpage : s.hdr page = some slab) :
    ∃ r s', takeObj page s = some (r, s') ∧ s'.pages = s.pages := by
  simp only [takeObj, hpage, Option.bind_eq_bind, Option.bind_some]
  cases Bitmap.firstClear s.mem (bitmapAddr page) slab.count with
  | none => exact ⟨_, _, rfl, rfl⟩
  | some i => exact ⟨_, _, rfl, rfl⟩

/-- A page may serve exactly when it has a free object and is of the zone asked for. -/
theorem eligible_eq_true {type : Zone} :
    eligible s type page = true ↔ HasFree s page ∧ zoneType page = type := by
  unfold eligible HasFree
  cases hpage : s.hdr page with
  | none => simp
  | some slab => simp

/-- For `ZONE_NORMAL` that is: a free object, and not below 2 GB. -/
theorem eligible_normal :
    eligible s .normal page = true ↔ HasFree s page ∧ isLowZone page = false := by
  rw [eligible_eq_true, zoneType]
  cases isLowZone page with
  | true => simp
  | false => simp

/-- **What `alloc_slab_obj` does** to a cache: nothing, or an object of one of its pages
is taken, or one of a new page where no page of the cache is eligible. -/
theorem CacheInv.alloc [DecidableEq κ] (hinv : CacheInv s live) {type : Zone}
    {newpage r : Option ℕ} (hfresh : freshPage s newpage = true)
    (halloc : allocSlabObj c type newpage s = some (r, s')) :
    (r = none ∧ s' = s) ∨ ∃ p, r = some p ∧ KeepsCount s s' ∧ CacheInv s' (p :: live) ∧
      ((addrToPage p ∈ s.pages c ∧ s'.pages = s.pages) ∨
        s.pages c ≠ [] ∧ (∀ n ∈ s.pages c, eligible s type n = false) ∧
          s.hdr (addrToPage p) = none ∧ newpage = some (addrToPage p) ∧
          s'.pages = Function.update s.pages c (s.pages c ++ [addrToPage p])) := by
  by_cases hc : s.pages c = []
  · rw [allocSlabObj, hc] at halloc
    obtain ⟨rfl, rfl⟩ := Prod.mk.inj (Option.some.inj halloc)
    exact Or.inl ⟨rfl, rfl⟩
  · obtain ⟨passed, rest, hpages⟩ := List.exists_cons_of_ne_nil hc
    obtain ⟨slab, hpassed, hmagic⟩ := hinv.passed c passed rest hpages
    rw [allocSlabObj_eq type newpage hpages hpassed hmagic] at halloc
    cases hfind : (s.pages c).find? (eligible s type) with
    | some page =>
      rw [hfind] at halloc
      have hmem := List.mem_of_find?_eq_some hfind
      obtain ⟨⟨h, hpage, hroom⟩, -⟩ := eligible_eq_true.1 (List.find?_some hfind)
      rcases hinv.take hpage hroom halloc with ⟨hr, hs, -⟩ | ⟨p, hr, hat, hsame, hkeeps, hinv'⟩
      · exact Or.inl ⟨hr, hs⟩
      · exact Or.inr ⟨p, hr, hkeeps, hinv', Or.inl ⟨hat ▸ hmem, hsame⟩⟩
    | none =>
      rw [hfind] at halloc
      have hnone : ∀ n ∈ s.pages c, eligible s type n = false :=
        fun n hn => by simpa using List.find?_eq_none.1 hfind n hn
      cases newpage with
      | none =>
        obtain ⟨rfl, rfl⟩ := Prod.mk.inj (Option.some.inj halloc)
        exact Or.inl ⟨rfl, rfl⟩
      | some page =>
        have hunused : s.hdr page = none := by simpa [freshPage] using hfresh
        have hin : passed ∈ s.pages c := by
          rw [hpages]
          exact List.mem_cons_self
        obtain ⟨hsound, -⟩ := hinv.sound passed slab hpassed
        have hsound' : Slab.Sound { slab with magic := .cont, used := 0 } :=
          ⟨hsound.objsize_pos, hsound.count_pos, hsound.behind, hsound.inside⟩
        have hadd := hinv.addPage c hunused hsound' rfl (fun hnil => absurd hnil hc)
          (fun n hn h hh => hinv.layout c n hn passed hin h slab hh hpassed)
          (clearPage page s.mem)
        have hkept : KeepsCount s (_allocSlabObjNewpage c slab page s) := by
          intro n h hn
          have hne : n ≠ page := by
            rintro rfl
            rw [hunused] at hn
            cases hn
          exact ⟨h, by rw [← hn]; exact Function.update_of_ne hne .., rfl⟩
        rcases hadd.take (Function.update_self ..) hsound.count_pos halloc with
          ⟨-, -, hfirst⟩ | ⟨p, hr, hat, hsame, hkeeps, hinv'⟩
        · obtain ⟨i, hi⟩ := hsound.firstClear_clearPage page s.mem
          cases hi.symm.trans hfirst
        · refine Or.inr ⟨p, hr, fun n h hn => ?_, hinv', Or.inr ⟨hc, hnone, hat ▸ hunused,
            congrArg some hat.symm, by rw [hsame, hat]⟩⟩
          obtain ⟨h₁, hn₁, hcount₁⟩ := hkept n h hn
          obtain ⟨h₂, hn₂, hcount₂⟩ := hkeeps n h₁ hn₁
          exact ⟨h₂, hn₂, hcount₂.trans hcount₁⟩

/-- **An object is given back.** -/
theorem CacheInv.free (hinv : CacheInv s live) {p : ℕ} (hp : p ∈ live)
    (hfree : freeSlabObj p s = some s') : CacheInv s' (live.erase p) := by
  obtain ⟨slab, hpage⟩ := hinv.object p hp
  obtain ⟨hsound, hle⟩ := hinv.sound _ slab hpage
  have hcount := hsound.count_le
  have hused := hinv.used _ slab hpage
  have hpos : 0 < slab.used := by
    rw [hused, List.countP_pos_iff]
    exact ⟨p, hp, decide_eq_true rfl⟩
  have hwrap : (slab.used + (2 ^ 16 - 1)) % 2 ^ 16 = slab.used - 1 := by omega
  have hcons : ∀ n, (live.countP fun q => addrToPage q = n) =
      ((live.erase p).countP fun q => addrToPage q = n) + if addrToPage p = n then 1 else 0 := by
    intro n
    rw [(List.perm_cons_erase hp).countP_eq, countP_page_cons]
  simp only [freeSlabObj, hpage, Option.bind_eq_bind, Option.bind_some, hwrap] at hfree
  obtain rfl := Option.some.inj hfree
  refine hinv.touch hpage _ (by omega) ?_ (fun n hne => ?_) fun q hq =>
    Or.inl (List.mem_of_mem_erase hq)
  · rw [hused, hcons, if_pos rfl, Nat.add_sub_cancel]
  · rw [hcons n, if_neg hne.symm, Nat.add_zero]

/-! ### Runs keep the invariant -/

section
variable [DecidableEq κ] {t u : SlabState κ}

/-- **One step**, by the kind of the event. -/
theorem slabUse_inv {e : SlabEvent κ} (hstep : SlabUse t e u) (hinv : CacheInv t.store t.live) :
    CacheInv u.store u.live := by
  unfold SlabUse at hstep
  cases e with
  | create c objsize align page =>
    simp only [slabUse, slabStep] at hstep
    split_ifs at hstep with hcond
    obtain ⟨hnil, hargs, hfresh⟩ := hcond
    obtain rfl := Option.some.inj hstep
    cases hcreate : createSlab c objsize align page t.store with
    | none => exact hinv
    | some s' =>
      rw [createSlab] at hcreate
      split_ifs at hcreate
      obtain ⟨n, rfl, hs'⟩ := Option.bind_eq_some_iff.1 hcreate
      obtain rfl := Option.some.inj hs'
      have hnone : t.store.hdr n = none := by simpa [freshPage] using hfresh
      have hadd := hinv.addPage c hnone hargs.sound rfl (fun _ => rfl)
        (fun n hn => by rw [hnil] at hn; exact absurd hn List.not_mem_nil)
        (clearPage n t.store.mem)
      rw [hnil] at hadd
      exact hadd
  | alloc c type page =>
    simp only [slabUse, slabStep] at hstep
    split_ifs at hstep with hfresh
    obtain ⟨r, halloc, rfl⟩ := Option.map_eq_some_iff.1 hstep
    rcases hinv.alloc hfresh halloc with ⟨hr, hs⟩ | ⟨p, hr, -, hinv', -⟩
    · rw [hr, hs]
      exact hinv
    · rw [hr]
      exact hinv'
  | free ptr =>
    simp only [slabUse, slabStep] at hstep
    split_ifs at hstep with hlive
    obtain ⟨s', hfree, rfl⟩ := Option.map_eq_some_iff.1 hstep
    exact hinv.free hlive hfree
  | write a v =>
    obtain rfl := Option.some.inj hstep
    exact ⟨hinv.header, hinv.sound, hinv.used, hinv.object, hinv.layout, hinv.nodup, hinv.owner,
      hinv.passed⟩

/-- The counts are right in every state of a run. -/
theorem slabUse_run {mem : Bitmap.Mem} {evs : List (SlabEvent κ)}
    (hrun : Run SlabUse (.init mem) evs t) : CacheInv t.store t.live :=
  hrun.invariant (P := fun t => CacheInv t.store t.live) (CacheInv.init mem)
    fun _ _ _ hinv hstep => slabUse_inv hstep hinv

/-! ### Which requests reuse a page -/

/-- A page is asked for exactly when the cache has pages and none of them is eligible. -/
theorem CacheInv.asksPage_iff (hinv : CacheInv s live) (c : κ) (type : Zone) :
    AsksPage c type s ↔ s.pages c ≠ [] ∧ ∀ n ∈ s.pages c, eligible s type n = false := by
  constructor
  · rintro ⟨page, r, s', halloc, hpages⟩
    have hlonger : s'.pages c ≠ s.pages c := by
      intro h
      have hlength := congrArg List.length (hpages.symm.trans h)
      rw [List.length_append, List.length_singleton] at hlength
      omega
    by_cases hc : s.pages c = []
    · rw [allocSlabObj, hc] at halloc
      obtain ⟨-, rfl⟩ := Prod.mk.inj (Option.some.inj halloc)
      exact absurd rfl hlonger
    · refine ⟨hc, fun n hn => ?_⟩
      obtain ⟨passed, rest, hlist⟩ := List.exists_cons_of_ne_nil hc
      obtain ⟨slab, hpassed, hmagic⟩ := hinv.passed c passed rest hlist
      rw [allocSlabObj_eq type (some page) hlist hpassed hmagic] at halloc
      cases hfind : (s.pages c).find? (eligible s type) with
      | some n' =>
        rw [hfind] at halloc
        obtain ⟨⟨h, hpage, hroom⟩, -⟩ := eligible_eq_true.1 (List.find?_some hfind)
        rcases hinv.take hpage hroom halloc with ⟨-, hs, -⟩ | ⟨-, -, -, hsame, -, -⟩
        · exact absurd (by rw [hs]) hlonger
        · exact absurd (by rw [hsame]) hlonger
      | none => simpa using List.find?_eq_none.1 hfind n hn
  · rintro ⟨hc, hnone⟩
    obtain ⟨passed, rest, hlist⟩ := List.exists_cons_of_ne_nil hc
    obtain ⟨slab, hpassed, hmagic⟩ := hinv.passed c passed rest hlist
    have hfind : (s.pages c).find? (eligible s type) = none :=
      List.find?_eq_none.2 fun n hn => by simp [hnone n hn]
    obtain ⟨r, s', htake, hsame⟩ := takeObj_pages (s := _allocSlabObjNewpage c slab 0 s)
      (Function.update_self ..)
    refine ⟨0, r, s', ?_, ?_⟩
    · rw [allocSlabObj_eq type (some 0) hlist hpassed hmagic, hfind]
      exact htake
    · rw [hsame]
      exact Function.update_self ..

/-- **One request.**  Pages are reused exactly when no page is passed over. -/
theorem CacheInv.reusesPages_iff (hinv : CacheInv s live) (c : κ) (type : Zone) :
    ReusesPages c type s ↔ NothingPassed c type s := by
  rw [ReusesPages, hinv.asksPage_iff]
  constructor
  · rintro hreuse rfl
    by_cases hhigh : ∃ page ∈ s.pages c, isLowZone page = false ∧ HasFree s page
    · exact Or.inl hhigh
    · refine Or.inr fun page hpage hlow => ?_
      refine hreuse ⟨List.ne_nil_of_mem hpage, fun n hn => ?_⟩ page hpage (fun h => nomatch h)
      rw [Bool.eq_false_iff, ne_eq, eligible_eq_true]
      rintro ⟨hfree, hzone⟩
      refine hhigh ⟨n, hn, ?_, hfree⟩
      by_contra hlow'
      rw [zoneType, if_pos (Bool.not_eq_false _ ▸ hlow')] at hzone
      exact nomatch hzone
  · rintro hpassed ⟨-, hnone⟩ page hpage hsat hfree
    have hnot : ∀ n ∈ s.pages c, HasFree s n → zoneType n ≠ type := by
      intro n hn hfree' hzone
      exact Bool.false_ne_true ((hnone n hn).symm.trans (eligible_eq_true.2 ⟨hfree', hzone⟩))
    have hhigh : ∀ n, isLowZone n = false → zoneType n = .normal :=
      fun n hn => if_neg (hn ▸ Bool.false_ne_true)
    cases type with
    | low => exact hnot page hpage hfree (if_pos (hsat rfl))
    | normal =>
      rcases hpassed rfl with ⟨n, hn, hnhigh, hfree'⟩ | hlow
      · exact hnot n hn hfree' (hhigh n hnhigh)
      · cases hpagelow : isLowZone page with
        | true => exact hlow page hpage hpagelow hfree
        | false => exact hnot page hpage hfree (hhigh page hpagelow)

/-! ### How many pages that makes -/

/-- The live objects on several pages, one page and the rest. -/
theorem countP_contains_cons {rest : List ℕ} (hnot : page ∉ rest) (live : List ℕ) :
    (live.countP fun p => (page :: rest).contains (addrToPage p)) =
      (live.countP fun p => addrToPage p = page) +
        live.countP fun p => rest.contains (addrToPage p) := by
  induction live with
  | nil => rfl
  | cons p live ih =>
    rw [List.countP_cons, List.countP_cons, List.countP_cons, ih]
    by_cases hp : addrToPage p = page
    · simp [hp, hnot]
      omega
    · simp [hp]
      omega

/-- Pages with at least `k` live objects each. -/
theorem length_mul_le {pages : List ℕ} (hnodup : pages.Nodup) {k : ℕ}
    (h : ∀ page ∈ pages, k ≤ live.countP fun p => addrToPage p = page) :
    pages.length * k ≤ live.countP fun p => pages.contains (addrToPage p) := by
  induction pages with
  | nil => simp
  | cons page rest ih =>
    obtain ⟨hnot, hrest⟩ := List.nodup_cons.1 hnodup
    have hfirst := h page List.mem_cons_self
    have hothers := ih hrest fun n hn => h n (List.mem_cons_of_mem _ hn)
    rw [countP_contains_cons hnot, List.length_cons, Nat.add_mul, Nat.one_mul]
    omega

/-- All pages of a cache but one are full. -/
def Filled (c : κ) (t : SlabState κ) : Prop :=
  ∀ page ∈ t.store.pages c, ∀ slab, t.store.hdr page = some slab →
    ((t.store.pages c).length - 1) * slab.count ≤ t.liveOf c

/-- **One step** of a run where nothing is passed over. -/
theorem slabUse_filled {c : κ} {e : SlabEvent κ} (hstep : SlabUse t e u)
    (hinv : CacheInv t.store t.live) (hmeets : CallPassesNothing t e) (honly : NormalOnly c e)
    (hfilled : Filled c t) : Filled c u := by
  have hinv' := slabUse_inv hstep hinv
  unfold SlabUse at hstep
  cases e with
  | create c' objsize align page =>
    simp only [slabUse, slabStep] at hstep
    split_ifs at hstep with hcond
    obtain ⟨hnil, hargs, hfresh⟩ := hcond
    obtain rfl := Option.some.inj hstep
    cases hcreate : createSlab c' objsize align page t.store with
    | none => exact hfilled
    | some s' =>
      rw [createSlab] at hcreate
      split_ifs at hcreate
      obtain ⟨n, rfl, hs'⟩ := Option.bind_eq_some_iff.1 hcreate
      obtain rfl := Option.some.inj hs'
      have hnone : t.store.hdr n = none := by simpa [freshPage] using hfresh
      intro page hpage slab hslab
      dsimp only [Option.getD_some] at hpage hslab ⊢
      by_cases hc : c = c'
      · rw [hc, Function.update_self]
        simp
      · rw [SlabState.liveOf]
        dsimp only [Option.getD_some]
        rw [Function.update_of_ne hc] at hpage ⊢
        have hne : page ≠ n := by
          rintro rfl
          obtain ⟨h, hh⟩ := hinv.header c page hpage
          rw [hnone] at hh
          cases hh
        rw [Function.update_of_ne hne] at hslab
        exact hfilled page hpage slab hslab
  | alloc c' type newpage =>
    simp only [slabUse, slabStep] at hstep
    split_ifs at hstep with hfresh
    obtain ⟨⟨r, s'⟩, halloc, rfl⟩ := Option.map_eq_some_iff.1 hstep
    rcases hinv.alloc hfresh halloc with
      ⟨rfl, rfl⟩ | ⟨p, rfl, hkeeps, -, ⟨hold, hsame⟩ | ⟨hne, hnone, hunused, hnew, hpages⟩⟩
    · exact hfilled
    · -- an object of an old page
      intro page hpage slab hslab
      dsimp only at hpage hslab
      rw [hsame] at hpage
      obtain ⟨h, hh⟩ := hinv.header c page hpage
      obtain ⟨h', hh', hcount⟩ := hkeeps page h hh
      obtain rfl := Option.some.inj (hslab.symm.trans hh')
      have hbefore := hfilled page hpage h hh
      rw [SlabState.liveOf] at hbefore ⊢
      dsimp only
      rw [hsame, hcount, Option.toList_some, List.singleton_append, List.countP_cons]
      omega
    · by_cases hc : c = c'
      · -- every page of the cache is full, and one is added
        subst hc
        intro page hpage slab hslab
        dsimp only at hpage hslab
        obtain ⟨first, hfirst⟩ := List.exists_mem_of_ne_nil _ hne
        obtain ⟨h, hh⟩ := hinv.header c first hfirst
        obtain ⟨h', hh', hcount⟩ := hkeeps first h hh
        have hfirst' : first ∈ s'.pages c := by
          rw [hpages, Function.update_self]
          exact List.mem_append_left _ hfirst
        have hlayout := hinv'.layout c page hpage first hfirst' slab h' hslab hh'
        have hfull : ∀ n ∈ t.store.pages c,
            slab.count ≤ t.live.countP fun q => addrToPage q = n := by
          intro n hn
          obtain ⟨k, hk⟩ := hinv.header c n hn
          have hsame := hinv.layout c n hn first hfirst k h hk hh
          rw [← hinv.used n k hk, hlayout, hcount, ← hsame]
          by_contra hroom
          have hfree : HasFree t.store n := ⟨k, hk, Nat.not_le.1 hroom⟩
          rcases hmeets (honly rfl) with ⟨m, hm, hhigh, hmfree⟩ | hlow
          · have hel := eligible_normal.2 ⟨hmfree, hhigh⟩
            rw [← honly rfl, hnone m hm] at hel
            exact Bool.false_ne_true hel
          · cases hnlow : isLowZone n with
            | true => exact hlow n hn hnlow hfree
            | false =>
              have hel := eligible_normal.2 ⟨hfree, hnlow⟩
              rw [← honly rfl, hnone n hn] at hel
              exact Bool.false_ne_true hel
        have hle := length_mul_le (hinv.nodup c) hfull
        have hmono : (t.live.countP fun q => (t.store.pages c).contains (addrToPage q)) ≤
            t.live.countP fun q => (t.store.pages c ++ [addrToPage p]).contains (addrToPage q) := by
          refine List.countP_mono_left fun q _ hq => ?_
          rw [List.contains_iff_mem] at hq ⊢
          exact List.mem_append_left _ hq
        rw [SlabState.liveOf]
        dsimp only
        rw [hpages, Function.update_self, Option.toList_some, List.singleton_append,
          List.countP_cons, List.length_append, List.length_singleton, Nat.add_sub_cancel]
        omega
      · -- another cache gets the page
        intro page hpage slab hslab
        dsimp only at hpage hslab
        rw [hpages, Function.update_of_ne hc] at hpage
        obtain ⟨h, hh⟩ := hinv.header c page hpage
        obtain ⟨h', hh', hcount⟩ := hkeeps page h hh
        obtain rfl := Option.some.inj (hslab.symm.trans hh')
        have hbefore := hfilled page hpage h hh
        rw [SlabState.liveOf] at hbefore ⊢
        dsimp only
        rw [hpages, Function.update_of_ne hc, hcount, Option.toList_some, List.singleton_append,
          List.countP_cons]
        omega
  | free ptr => exact honly.elim
  | write a v =>
    obtain rfl := Option.some.inj hstep
    exact hfilled

/-- Runs that pass no page over fill their pages before they take new ones. -/
theorem guarded_filled {c : κ} {mem : Bitmap.Mem} {evs : List (SlabEvent κ)}
    (hrun : Run (guarded CallPassesNothing SlabUse) (.init mem) evs t)
    (honly : ∀ e ∈ evs, NormalOnly c e) : Filled c t := by
  induction hrun with
  | nil => exact fun page hpage => absurd hpage List.not_mem_nil
  | @snoc evs t e u hfirst hlast ih =>
    have hbefore := ih fun e' he => honly e' (List.mem_append_left _ he)
    have hinv := slabUse_run hfirst.of_guarded
    have honly' := honly e (List.mem_append_right _ (List.mem_singleton_self e))
    exact slabUse_filled hlast.2 hinv hlast.1 honly' hbefore

/-- At most `ceil(n / count) + 1` pages for `n` live objects. -/
def FewPages (c : κ) (t : SlabState κ) : Prop :=
  ∀ page ∈ t.store.pages c, ∀ slab, t.store.hdr page = some slab →
    (t.store.pages c).length ≤ (t.liveOf c + slab.count - 1) / slab.count + 1

omit [DecidableEq κ] in
/-- **Filled pages are few**: as many as the live objects need. -/
theorem Filled.fewPages {c : κ} (h : Filled c t) (hinv : CacheInv t.store t.live) :
    FewPages c t := by
  intro page hpage slab hslab
  have hpos := (hinv.sound page slab hslab).1.count_pos
  have hle := h page hpage slab hslab
  have hdiv : (t.store.pages c).length - 1 ≤ (t.liveOf c + slab.count - 1) / slab.count :=
    (Nat.le_div_iff_mul_le hpos).2 (by omega)
  omega

/-- **A cache reuses its pages exactly when** no page below 2GB with a free object is passed
over: for `ZONE_LOW` always, and for `ZONE_NORMAL` when a page at or above 2GB has a free
object or no page below has one.  In every run where that is so at each allocation, a cache
whose objects are all asked for in `ZONE_NORMAL` and never given back has at most one page
more than its objects fill. -/
theorem slab_reuses_iff : ∀ (mem : Bitmap.Mem) (evs : List (SlabEvent κ)) (t : SlabState κ),
    Run SlabUse (.init mem) evs t →
      (∀ c type, ReusesPages c type t.store ↔ NothingPassed c type t.store) ∧
      (Run (guarded CallPassesNothing SlabUse) (.init mem) evs t →
        ∀ c, (∀ e ∈ evs, NormalOnly c e) → FewPages c t) := by
  intro mem evs t hrun
  have hinv := slabUse_run hrun
  refine ⟨fun c type => hinv.reusesPages_iff c type, fun hguarded c honly => ?_⟩
  exact (guarded_filled hguarded honly).fewPages hinv

end

/-- An object of 512 bytes comes from the first page of its cache, which is above 2GB and
has room. -/
theorem slab_reuses_512 : ∃ t : SlabState Unit,
    Run SlabUse (.init fun _ => 0xff) [.create () 512 8 (some 600000), .alloc () .normal none] t ∧
      ReusesPages () .normal t.store ∧ FewPages () t := by
  have hcreate : (slabUse (κ := Unit) (.init fun _ => 0xff)
      (.create () 512 8 (some 600000))).map (fun t => (t.store.pages (), t.store.hdr 600000)) =
        some ([600000], some (slabLayout 512 8)) := by decide +kernel
  obtain ⟨t, ht, hval⟩ := Option.map_eq_some_iff.1 hcreate
  obtain ⟨hpages, hhdr⟩ := Prod.mk.inj hval
  have halloc : ((slabUse (κ := Unit) (.init fun _ => 0xff) (.create () 512 8 (some 600000))).bind
      fun t => (slabUse t (.alloc () .normal none)).map
        fun u => (u.store.pages (), u.store.hdr 600000)) =
        some ([600000], some { slabLayout 512 8 with used := 1 }) := by decide +kernel
  rw [ht, Option.bind_some] at halloc
  obtain ⟨u, hu, hval'⟩ := Option.map_eq_some_iff.1 halloc
  obtain ⟨hpages', hhdr'⟩ := Prod.mk.inj hval'
  have hfirst : NothingPassed () .normal t.store := fun _ => Or.inl ⟨600000, by simp [hpages],
    by decide, slabLayout 512 8, hhdr, by decide⟩
  have hsecond : NothingPassed () .normal u.store := fun _ => Or.inl ⟨600000, by simp [hpages'],
    by decide, { slabLayout 512 8 with used := 1 }, hhdr', by decide⟩
  have hguarded : Run (guarded CallPassesNothing SlabUse) (.init fun _ => 0xff)
      [.create () 512 8 (some 600000), .alloc () .normal none] u :=
    (Run.nil.snoc ⟨trivial, ht⟩).snoc ⟨hfirst, hu⟩
  have hboth := slab_reuses_iff (fun _ => 0xff) _ u hguarded.of_guarded
  refine ⟨u, hguarded.of_guarded, (hboth.1 () .normal).2 hsecond, hboth.2 hguarded () ?_⟩
  intro e he
  rcases List.mem_cons.1 he with rfl | he
  · trivial
  · obtain rfl := List.mem_singleton.1 he
    exact fun _ => rfl

/-- With all pages below 2GB each object takes a page: a page counts for `ZONE_NORMAL` only
if it is above. -/
theorem not_slab_reuses : ¬ ∀ (mem : Bitmap.Mem) (evs : List (SlabEvent Unit))
    (t : SlabState Unit), Run SlabUse (.init mem) evs t →
      (∀ c type, ReusesPages c type t.store) ∧
      (∀ c, (∀ e ∈ evs, NormalOnly c e) → FewPages c t) := by
  intro h
  have hrun : (([.create () 512 8 (some 1100), .alloc () .normal (some 1101),
      .alloc () .normal (some 1102)] : List (SlabEvent Unit)).foldlM slabUse
        (SlabState.init fun _ => 0xff)).map
          (fun t => (t.store.pages (), t.store.hdr 1100, t.liveOf ())) =
      some ([1100, 1101, 1102], some (slabLayout 512 8), 2) := by decide +kernel
  obtain ⟨t, ht, hval⟩ := Option.map_eq_some_iff.1 hrun
  obtain ⟨hpages, hval⟩ := Prod.mk.inj hval
  obtain ⟨hhdr, hlive⟩ := Prod.mk.inj hval
  have hfew := (h _ _ t (Run.of_foldlM ht)).2 () (by
    intro e he
    simp only [List.mem_cons, List.not_mem_nil, or_false] at he
    rcases he with rfl | rfl | rfl
    · trivial
    · exact fun _ => rfl
    · exact fun _ => rfl)
  have hle := hfew 1100 (by simp [hpages]) _ hhdr
  rw [hpages, hlive] at hle
  exact absurd hle (by decide)

end Hvf
