/-
# Creating a task

`create_task` of `cp/nucleus/sched.c`.  It asks for a page for the stack and for a
`struct task`, both before it looks at either result, and where one of them is missing
it gives both back.  `free` knows a null pointer; `page_to_addr` and `free_pages` do not,
and the address that they make of one is put on a free list.

`alloc_pages` for `ZONE_NORMAL` looks behind the lists of `orders_low` when there is no
block up to order 19.  What is there is not known: the call is taken to fail when no
block is free at all, and to have no result otherwise (`PageCall`).
-/

import Hvf.Guest.VirtSys
import Hvf.Mm.Malloc
import Hvf.Mm.BuddyZone
import Hvf.Mm.SlabReuse
import Hvf.Nucleus.Sched

namespace Hvf

open NumberedBins

/-! ### The source functions -/

/-- A `struct page *`. -/
def pagePtr : Option ℕ → BitVec 64
  | none => 0
  | some page => pageInfoBase + BitVec.ofNat 64 page * sizeofStructPage

/-- `page_to_addr` of a pointer. -/
def pagePtrToAddr (page : BitVec 64) : BitVec 64 :=
  ((page - pageInfoBase) / sizeofStructPage) <<< pageShift

/-- **A call of `alloc_pages` as its caller knows it**: it stays inside the arrays, or it
finds no block, and then what it reads behind an array is taken for an empty list. -/
inductive PageCall (order : ℕ) (type : Zone) (b : Buddy) : Option ℕ → Buddy → Prop
  | inside {page b'} : allocPages order type b = some (page, b') → PageCall order type b page b'
  | empty : (∀ k, order ≤ k → ¬ b.FreeAt type k) → PageCall order type b none b

/-- The cache that `malloc` uses for a size. -/
def mallocClass (size : ℤ) : Option (Fin 7) :=
  if size = 0 then none
  else if size ≤ 16 then some 0
  else if size ≤ 32 then some 1
  else if size ≤ 64 then some 2
  else if size ≤ 128 then some 3
  else if size ≤ 256 then some 4
  else if size ≤ 512 then some 5
  else if size ≤ 1024 then some 6
  else none

/-- `alloc_slab_obj` gets to `__alloc_slab_obj_newpage`. -/
def needsPage {κ : Type} (c : κ) (type : Zone) (s : SlabStore κ) : Bool :=
  !(s.pages c).isEmpty && ((s.pages c).find? (eligible s type)).isNone

/-- A call of `malloc`, with the `alloc_pages` that it makes if it needs a page. -/
def MallocCall (size : ℤ) (type : Zone) (b : Buddy) (s : SlabStore (Fin 7)) (r : Option ℕ)
    (b' : Buddy) (s' : SlabStore (Fin 7)) : Prop :=
  if (mallocClass size).any fun c => needsPage c type s then
    ∃ page, PageCall 0 type b page b' ∧ malloc size type page s = some (r, s')
  else b' = b ∧ malloc size type none s = some (r, s')

/-- **A task** (`struct task`), without what `__init_task` leaves 0 and nothing here reads.
-/
structure Task where
  /-- `psw.io`, `psw.ex`, `psw.m`, `psw.ea` and `psw.ba` -/
  pswBits : Bool × Bool × Bool × Bool × Bool
  pswPtr : BitVec 64
  gpr : Fin 16 → BitVec 64
  state : TaskState
  stack : BitVec 64
  nrLocks : ℕ
  name : List UInt8

/-- `sizeof(struct task)`. -/
def sizeofTask : ℤ := 568

/-- `STACK_FRAME_SIZE`: the frame that a task's stack begins with. -/
def stackFrameSize : BitVec 64 := 160

/-- `TASK_NAME_LEN`: how many characters of a task's name are kept. -/
def taskNameLen : ℕ := 16

/-- `__init_task`; `startTask` is the address of `start_task`. -/
def _initTask (startTask f data stack : BitVec 64) : Task where
  pswBits := (true, true, true, true, true)
  pswPtr := startTask
  gpr := Function.update (Function.update (Function.update (fun _ => 0) 2 f) 3 data) 15
    (stack + BitVec.ofNat 64 pageSize - stackFrameSize)
  state := .sleeping
  stack := stack
  nrLocks := 0
  name := []

/-- **What `create_task` works on**: the two allocators, the tasks by their addresses, and
the two lists of tasks. -/
structure TaskHeap where
  buddy : Buddy
  store : SlabStore (Fin 7)
  task : ℕ → Option Task
  processes : List ℕ
  runnable : List ℕ

/-- **What `create_task` is called with**: the name, the function with its argument, and the
address of the code that begins a task. -/
structure TaskArgs where
  name : List UInt8
  f : BitVec 64
  data : BitVec 64
  startTask : BitVec 64

/-- `create_task`; no task is `ERR_PTR(-ENOMEM)`. -/
def CreateTask (args : TaskArgs) (h : TaskHeap) (r : Option ℕ) (h' : TaskHeap) : Prop :=
  ∃ page b₁, PageCall 0 .normal h.buddy page b₁ ∧
    ∃ task b₂ s, MallocCall sizeofTask .normal b₁ h.store task b₂ s ∧
      match page, task with
      | some page, some task =>
        let stack := pagePtrToAddr (pagePtr (some page))
        r = some task ∧ h' =
          { buddy := b₂
            store := s
            task := Function.update h.task task (some
              { _initTask args.startTask args.f args.data stack with
                name := args.name.take taskNameLen })
            processes := h.processes ++ [task]
            runnable := h.runnable ++ [task] }
      | page, task =>
        r = none ∧ ∃ s' b', free (task.getD 0) s = some s' ∧
          freePages (pagePtrToAddr (pagePtr page)).toNat 0 b₂ = some b' ∧
          h' = { h with buddy := b', store := s' }

/-! ### What is promised -/

/-- **The lists and the caches are in order**: each free block is on a list of its zone, at
an address of 64 bits, and the caches' counters are right. -/
structure TaskHeap.WellFormed (h : TaskHeap) : Prop where
  zoned : Zoned h.buddy
  storage : ∀ p ∈ pagesOf h.buddy.free, p < 2 ^ 52
  cache : ∃ live, CacheInv h.store live

/-- **The call has changed nothing**: the page allocator's lists hold the pages that they
held, and the caches and lists of tasks are the same. -/
structure TaskHeap.Unchanged (h h' : TaskHeap) : Prop where
  pages : pagesOf h'.buddy.free = pagesOf h.buddy.free
  store : h'.store = h.store
  processes : h'.processes = h.processes
  runnable : h'.runnable = h.runnable

variable {b b' : Buddy} {order : ℕ} {type : Zone} {s s' : SlabStore (Fin 7)}

/-! ### Pages -/

/-- The address of a page is right for a page, -/
theorem pagePtrToAddr_some {page : ℕ} (h : page < 2 ^ 52) :
    (pagePtrToAddr (pagePtr (some page))).toNat = pageToAddr page := by
  have hnum : (pagePtr (some page) - pageInfoBase) / sizeofStructPage = BitVec.ofNat 64 page := by
    have hsub : pagePtr (some page) - pageInfoBase = BitVec.ofNat 64 page * sizeofStructPage := by
      rw [pagePtr, BitVec.add_comm, BitVec.add_sub_cancel]
    rw [hsub]
    apply BitVec.eq_of_toNat_eq
    have hofNat : (BitVec.ofNat 64 page).toNat = page := by
      rw [BitVec.toNat_ofNat]
      exact Nat.mod_eq_of_lt (by omega)
    rw [BitVec.toNat_udiv, BitVec.toNat_mul, hofNat, show sizeofStructPage.toNat = 16 from rfl,
      Nat.mod_eq_of_lt (by omega), Nat.mul_div_cancel _ (by norm_num)]
  rw [pagePtrToAddr, hnum, BitVec.toNat_shiftLeft, BitVec.toNat_ofNat, pageToAddr,
    Nat.mod_eq_of_lt (show page < 2 ^ 64 by omega), Nat.shiftLeft_eq,
    show 2 ^ pageShift = 4096 from rfl]
  exact Nat.mod_eq_of_lt (by omega)

/-- and `2^64 - 2^30` for the null pointer. -/
theorem pagePtrToAddr_none :
    (pagePtrToAddr (pagePtr none)).toNat = pageToAddr (2 ^ 52 - 2 ^ 18) := by
  decide

/-- An order offers nothing exactly when there is no such order, or its list is empty. -/
theorem listHead_eq_none {n k : ℕ} {orders : Bins n ℕ} :
    listHead orders k = none ↔ ¬ ∃ h : k < n, orders ⟨k, h⟩ ≠ [] := by
  unfold listHead
  split
  · rename_i hk
    rw [List.head?_eq_none_iff]
    exact ⟨fun hnil ⟨_, hne⟩ => hne hnil, fun hnot => by_contra fun hne => hnot ⟨hk, hne⟩⟩
  · rename_i hk
    exact iff_of_true rfl fun ⟨hk', _⟩ => hk hk'

/-- What `ZONE_NORMAL` may take is what is offered. -/
theorem Buddy.freeAt_iff_offer {k : ℕ} : b.FreeAt .normal k ↔ b.offer k ≠ none := by
  rw [Buddy.offer, ne_eq, Option.or_eq_none_iff, listHead_eq_none, listHead_eq_none, ← not_or,
    not_not]
  exact or_congr ⟨fun h => h.2, fun h => ⟨rfl, h⟩⟩ Iff.rfl

/-- A search for a page above 2GB or below does not end inside the arrays without one. -/
theorem allocPages_normal_ne_none (b b' : Buddy) : allocPages 0 .normal b ≠ some (none, b') := by
  rw [allocPages_eq]
  intro h
  obtain ⟨⟨p, b₁⟩, htake, hrest⟩ := Option.bind_eq_some_iff.1 h
  cases p with
  | some page => exact nomatch (Prod.mk.inj (Option.some.inj hrest)).1
  | none =>
    have hlarger : allocLarger 0 .normal (Zone.normal.maxOrder - (0 + 1)) (0 + 1) b₁ =
      some (none, b') := hrest
    rcases @allocLarger_search b₁ 0 1 .normal (Zone.normal.maxOrder - (0 + 1)) (by decide)
        (by decide) with
      ⟨-, page, b₂, hfound⟩ | ⟨-, hout⟩
    · rw [hfound] at hlarger
      exact nomatch (Prod.mk.inj (Option.some.inj hlarger)).1
    · rw [hout] at hlarger
      exact nomatch hlarger

/-- A page of any order in a list is found, and a search inside the arrays that finds
none changes nothing. -/
theorem PageCall.spec {page : Option ℕ} (h : PageCall 0 .normal b page b') :
    (page = none ∧ b' = b ∧ ∀ k, ¬ b.FreeAt .normal k) ∨
      ∃ p, page = some p ∧ (∃ k, b.FreeAt .normal k) ∧
        allocPages 0 .normal b = some (some p, b') := by
  cases h with
  | empty hnone => exact Or.inl ⟨rfl, rfl, fun k => hnone k (Nat.zero_le k)⟩
  | inside h =>
    cases page with
    | some p =>
      obtain ⟨k, -, -, hfound⟩ := allocPages_offer h
      refine Or.inr ⟨p, rfl, ⟨k, ?_⟩, h⟩
      rw [Buddy.freeAt_iff_offer, hfound]
      exact Option.some_ne_none p
    | none => exact absurd h (allocPages_normal_ne_none b b')

/-! ### Objects -/

/-- `malloc` takes an object of its class. -/
theorem malloc_class (size : ℤ) (newpage : Option ℕ) :
    malloc size type newpage s =
      (mallocClass size).elim (some (none, s)) fun c => allocSlabObj c type newpage s := by
  unfold malloc mallocClass
  split_ifs <;> rfl

/-- A task's structure is taken from the cache of 1024 byte objects. -/
theorem sizeofTask_class : mallocClass sizeofTask = some 6 := by decide

/-- **`malloc` for a task** fails and changes nothing, or takes an object that can be given
back, or finds a new page for it. -/
theorem MallocCall.spec {r : Option ℕ} {live : List ℕ} (hinv : CacheInv s live)
    (h : MallocCall sizeofTask .normal b s r b' s') :
    (r = none ∧ s' = s ∧ b' = b) ∨
      (∃ p, r = some p ∧ b' = b ∧ free p s' = some s) ∨
      ∃ p page, r = some p ∧ PageCall 0 .normal b (some page) b' := by
  unfold MallocCall at h
  simp only [malloc_class, sizeofTask_class, Option.any_some, Option.elim_some] at h
  by_cases hc : s.pages 6 = []
  · have hno : needsPage (6 : Fin 7) .normal s = false := by
      rw [needsPage, hc]
      rfl
    rw [hno, if_neg Bool.false_ne_true, allocSlabObj, hc] at h
    obtain ⟨rfl, rfl⟩ := Prod.mk.inj (Option.some.inj h.2)
    exact Or.inl ⟨rfl, rfl, h.1⟩
  · obtain ⟨passed, rest, hpages⟩ := List.exists_cons_of_ne_nil hc
    obtain ⟨slab, hpassed, hmagic⟩ := hinv.passed 6 passed rest hpages
    have hneeds : needsPage (6 : Fin 7) .normal s =
        ((s.pages 6).find? (eligible s .normal)).isNone := by
      rw [needsPage, hpages]
      rfl
    rw [hneeds] at h
    simp only [allocSlabObj_eq .normal _ hpages hpassed hmagic] at h
    cases hfind : (s.pages 6).find? (eligible s .normal) with
    | some page =>
      simp only [hfind, Option.isNone_some, Bool.false_eq_true, if_false] at h
      obtain ⟨⟨h₁, hpage, hroom⟩, -⟩ := eligible_eq_true.1 (List.find?_some hfind)
      obtain ⟨hsound, -⟩ := hinv.sound page h₁ hpage
      cases r with
      | none =>
        rcases hinv.take hpage hroom h.2 with ⟨-, hs, -⟩ | ⟨p, hp, -⟩
        · exact Or.inl ⟨rfl, hs, h.1⟩
        · cases hp
      | some p =>
        obtain ⟨hne, hfree⟩ := takeObj_free hsound hpage hroom h.2
        refine Or.inr (Or.inl ⟨p, rfl, h.1, ?_⟩)
        rw [free, if_pos hne]
        exact hfree
    | none =>
      simp only [hfind, Option.isNone_none, if_true] at h
      obtain ⟨newpage, hcall, hmalloc⟩ := h
      cases newpage with
      | none =>
        obtain ⟨rfl, rfl⟩ := Prod.mk.inj (Option.some.inj hmalloc)
        rcases hcall.spec with ⟨-, hb, -⟩ | ⟨p, hp, -⟩
        · exact Or.inl ⟨rfl, rfl, hb⟩
        · cases hp
      | some page =>
        -- the bitmap of the new page is clear, so an object is found
        obtain ⟨hsound, -⟩ := hinv.sound passed slab hpassed
        obtain ⟨i, hi⟩ := hsound.firstClear_clearPage page s.mem
        have htake : takeObj page (_allocSlabObjNewpage 6 slab page s) = some (r, s') := hmalloc
        simp only [takeObj, _allocSlabObjNewpage, Function.update_self, Option.bind_eq_bind,
          Option.bind_some, hi] at htake
        obtain ⟨rfl, -⟩ := Prod.mk.inj (Option.some.inj htake)
        exact Or.inr (Or.inr ⟨_, page, rfl, hcall⟩)

/-! ### The call -/

/-- The allocators are in order in every state that their calls lead to. -/
theorem wellFormed_of_runs {memsize start : BitVec 64} (hinit : InitExact memsize start)
    {evs : List BuddyEvent} {t : BuddyState}
    (hrun : StepRun.Run BuddyStep (.init memsize start) evs t) {mem : Bitmap.Mem}
    {evs' : List (SlabEvent (Fin 7))} {u : SlabState (Fin 7)}
    (hrun' : StepRun.Run SlabUse (.init mem) evs' u) (h : TaskHeap) :
    TaskHeap.WellFormed { h with buddy := t.buddy, store := u.store } := by
  have hinv : BuddyInv (initPages memsize start) t :=
    hrun.invariant (buddyInv_init hinit) fun _ _ _ hinv hstep => hstep.inv hinv
  refine ⟨hinv.zoned, ?_, u.live, slabUse_run hrun'⟩
  show ∀ p ∈ pagesOf t.buddy.free, p < 2 ^ 52
  intro p hp
  have hin : p ∈ initPages memsize start := by
    rw [← hinv.cover, pagesOf_add, Multiset.mem_add]
    left
    assumption
  have hmem := memsize.isLt
  rw [initPages, Multiset.mem_add, initNormalPages, initLowPages, Multiset.mem_Ico,
    Multiset.mem_Ico, addrToPage_eq, addrToPage_eq, addrToPage_eq, addrToPage_eq] at hin
  omega

/-- The page that is put on a list for a null pointer. -/
theorem freePages_null (b : Buddy) :
    freePages (pagePtrToAddr (pagePtr none)).toNat 0 b =
      some { b with ordersNormal := push b.ordersNormal ⟨0, by decide⟩ (2 ^ 52 - 2 ^ 18) } := by
  have hzone : ¬ isLowZone (2 ^ 52 - 2 ^ 18) = true := by
    rw [isLowZone_iff]
    norm_num
  rw [pagePtrToAddr_none, freePages, addrToPage_pageToAddr, listAdd, if_neg hzone]
  exact dif_pos (by decide)

/-- A block more makes pages more. -/
theorem pagesOf_push_ne (b : Buddy) (k : Fin zoneNormalMaxOrder) (page : ℕ) :
    pagesOf { b with ordersNormal := push b.ordersNormal k page }.free ≠ pagesOf b.free := by
  have hsplit : pagesOf { b with ordersNormal := push b.ordersNormal k page }.free =
      blockPages (k.val, page) + pagesOf b.free := by
    rw [Buddy.free, items_push, Multiset.cons_add, pagesOf_cons]
    rfl
  have hone : Multiset.card (blockPages (k.val, page)) = 2 ^ k.val := by
    rw [blockPages, Multiset.Ico, Finset.card_val, Nat.card_Ico, Nat.add_sub_cancel_left]
  intro hsame
  have hcard := congrArg Multiset.card hsame
  rw [hsplit, Multiset.card_add, hone] at hcard
  exact absurd hcard (Nat.ne_of_gt (Nat.lt_add_of_pos_left (Nat.two_pow_pos _)))

/-- **`create_task` that fails is undone exactly when** a page is free at the call: then it
has got the page for the stack, and gives it back. -/
theorem createTask_unchanged_iff : ∀ (args : TaskArgs) (h h' : TaskHeap), h.WellFormed →
    CreateTask args h none h' →
      (h.Unchanged h' ↔ ∃ k, h.buddy.FreeAt .normal k) := by
  intro args h h' hwell hcreate
  obtain ⟨live, hinv⟩ := hwell.cache
  obtain ⟨page, b₁, hpage, task, b₂, s, hmalloc, hrest⟩ := hcreate
  rcases hpage.spec with ⟨rfl, rfl, hnone⟩ | ⟨p, rfl, hfound, halloc⟩
  · -- no page is free, and one that does not exist is put on a list
    refine iff_of_false (fun hsame => ?_) fun hfree => hfree.elim hnone
    obtain ⟨-, s', b', hfree, hput, rfl⟩ := hrest
    have hb : b₂ = h.buddy := by
      rcases hmalloc.spec hinv with ⟨-, -, hb⟩ | ⟨-, -, hb, -⟩ | ⟨p, page, -, hcall⟩
      · exact hb
      · exact hb
      · rcases hcall.spec with ⟨hcontra, -⟩ | ⟨-, -, ⟨k, hk⟩, -⟩
        · cases hcontra
        · exact absurd hk (hnone k)
    rw [hb, freePages_null] at hput
    obtain rfl := Option.some.inj hput
    exact pagesOf_push_ne _ _ _ hsame.pages
  · -- the page for the stack was found, and `malloc` has failed
    refine iff_of_true ?_ hfound
    have hmoves := allocPages_moves halloc hwell.zoned
    have hp : p < 2 ^ 52 := by
      refine hwell.storage p ?_
      rw [hmoves.pages, Option.elim_some, Multiset.mem_add]
      exact Or.inl (first_mem_blockPages (0, p))
    cases task with
    | some t => cases hrest.1
    | none =>
      obtain ⟨-, s', b', hfree, hput, rfl⟩ := hrest
      have hsame : s = h.store ∧ b₂ = b₁ := by
        rcases hmalloc.spec hinv with ⟨-, hs, hb⟩ | ⟨t, ht, -⟩ | ⟨t, page, ht, -⟩
        · exact ⟨hs, hb⟩
        · cases ht
        · cases ht
      rw [hsame.2, pagePtrToAddr_some hp] at hput
      have hback := (freePages_moves hput hmoves.zoned (hmoves.block p rfl)).1
      obtain rfl : s = s' := Option.some.inj hfree
      refine ⟨?_, hsame.1, rfl, rfl⟩
      rw [hback, pagesOf_cons, hmoves.pages]
      rfl

/-- A heap with a cache for tasks on a page below 2GB, which a `ZONE_NORMAL` request
passes over. -/
def smallHeap (buddy : Buddy) : TaskHeap where
  buddy := buddy
  store :=
    { hdr := Function.update (fun _ => none) 1100 (some (genericLayout 6))
      pages := Function.update (fun _ => []) 6 [1100]
      mem := fun _ => 0 }
  task := fun _ => none
  processes := []
  runnable := []

/-- The free lists with the pages `free` below 2GB. -/
def lowPagesOnly (free : List ℕ) : Buddy where
  ordersNormal := fun _ => []
  ordersLow := Function.update (fun _ => []) ⟨0, by decide⟩ free

/-- The example's allocator has the pages given, one by one, and nothing else. -/
theorem lowPagesOnly_items (free : List ℕ) : (lowPagesOnly free).free =
    (free : Multiset ℕ).map fun page => (0, page) := by
  have hnil : ∀ n : ℕ, items (fun _ : Fin n => ([] : List ℕ)) = 0 := fun n => by simp [items]
  rw [Buddy.free, lowPagesOnly, hnil, zero_add]
  induction free with
  | nil =>
    rw [show Function.update (fun _ : Fin zoneLowMaxOrder => ([] : List ℕ)) ⟨0, by decide⟩ [] =
      fun _ => [] from Function.update_eq_self _ _, hnil]
    rfl
  | cons page rest ih =>
    rw [items_update_cons, ih, ← Multiset.cons_coe, Multiset.map_cons]

/-- The example's heap is in order. -/
theorem smallHeap_wellFormed {free : List ℕ} (hfree : ∀ p ∈ free, p < 2 ^ 19) :
    (smallHeap (lowPagesOnly free)).WellFormed := by
  have hlow : ∀ k, ∀ p ∈ (lowPagesOnly free).ordersLow k, k.val = 0 ∧ p ∈ free := by
    intro k p hp
    have hval : (lowPagesOnly free).ordersLow k =
        Function.update (fun _ => []) ⟨0, by decide⟩ free k := rfl
    rw [hval, Function.update_apply] at hp
    by_cases hk : k = ⟨0, by decide⟩
    · rw [if_pos hk] at hp
      exact ⟨congrArg Fin.val hk, hp⟩
    · rw [if_neg hk] at hp
      exact absurd hp List.not_mem_nil
  constructor
  · constructor
    · intro x hx
      obtain ⟨k, hk, hp⟩ := mem_items.1 hx
      obtain ⟨hzero, hin⟩ := hlow k _ hp
      have hlt := hfree _ hin
      have hx : x.1 = 0 := hk.symm.trans hzero
      rw [LowBlock, hx]
      exact ⟨by decide, hlt⟩
    · intro x hx
      obtain ⟨k, -, hp⟩ := mem_items.1 hx
      exact absurd hp List.not_mem_nil
  · intro p hp
    rw [smallHeap, lowPagesOnly_items, mem_pagesOf] at hp
    obtain ⟨x, hx, hle, hlt⟩ := hp
    obtain ⟨page, hpage, rfl⟩ := Multiset.mem_map.1 hx
    have hbound := hfree page (Multiset.mem_coe.1 hpage)
    dsimp only at hle hlt
    omega
  · exact ⟨[], (CacheInv.init (κ := Fin 7) fun _ => 0).addPage 6 rfl
      (genericArgs_slabArgs 6).sound rfl (fun _ => rfl)
      (fun n hn => absurd hn List.not_mem_nil) (fun _ => 0)⟩

/-- The example's allocator hands out its pages in their order. -/
theorem allocPages_lowPagesOnly (page : ℕ) (rest : List ℕ) :
    allocPages 0 .normal (lowPagesOnly (page :: rest)) = some (some page, lowPagesOnly rest) := by
  have htake : allocPages 0 .normal (lowPagesOnly (page :: rest)) = some (some page,
      { ordersNormal := fun _ => []
        ordersLow := Function.update (lowPagesOnly (page :: rest)).ordersLow ⟨0, by decide⟩
          rest }) := rfl
  rw [htake, lowPagesOnly, Function.update_idem]
  rfl

/-- No page of an empty heap is found, -/
theorem pageCall_lowPagesOnly_nil :
    PageCall 0 .normal (lowPagesOnly []) none (lowPagesOnly []) := by
  have hnil : (lowPagesOnly []).ordersLow = fun _ => [] := Function.update_eq_self _ _
  refine .empty fun k _ hfree => ?_
  rcases hfree with ⟨-, _, hne⟩ | ⟨_, hne⟩
  · exact hne rfl
  · rw [hnil] at hne
    exact hne rfl

/-- and none for a task. -/
theorem mallocCall_lowPagesOnly_nil : MallocCall sizeofTask .normal (lowPagesOnly [])
    (smallHeap (lowPagesOnly [])).store none (lowPagesOnly [])
      (smallHeap (lowPagesOnly [])).store := by
  rw [MallocCall, if_pos (by decide)]
  exact ⟨none, pageCall_lowPagesOnly_nil, rfl⟩

/-- With one page of storage free the call finds it, finds no page for the task, and gives
the page back. -/
theorem createTask_unchanged_iff_onePage : ∃ h' : TaskHeap,
    CreateTask ⟨[], 0, 0, 0⟩ (smallHeap (lowPagesOnly [1088])) none h' ∧
      (smallHeap (lowPagesOnly [1088])).Unchanged h' := by
  have hcreate : CreateTask ⟨[], 0, 0, 0⟩ (smallHeap (lowPagesOnly [1088])) none _ :=
    ⟨some 1088, lowPagesOnly [], .inside (allocPages_lowPagesOnly 1088 []), none, _, _,
      mallocCall_lowPagesOnly_nil,
      rfl, _, _, rfl, rfl, rfl⟩
  refine ⟨_, hcreate, ?_⟩
  refine (createTask_unchanged_iff _ _ _ (smallHeap_wellFormed (by decide)) hcreate).2 ⟨0, ?_⟩
  exact Or.inr ⟨by decide, by decide⟩

/-- With no page of storage free a page that there is not is put on the list of single
pages. -/
theorem not_createTask_unchanged : ¬ ∀ (args : TaskArgs) (h h' : TaskHeap), h.WellFormed →
    CreateTask args h none h' → h.Unchanged h' := by
  intro hall
  have hcreate : CreateTask ⟨[], 0, 0, 0⟩ (smallHeap (lowPagesOnly [])) none _ :=
    ⟨none, lowPagesOnly [], pageCall_lowPagesOnly_nil, none, _, _, mallocCall_lowPagesOnly_nil,
      rfl, _, _, rfl, freePages_null _, rfl⟩
  have hpages := (hall _ _ _ (smallHeap_wellFormed (by decide)) hcreate).pages
  exact pagesOf_push_ne _ _ _ hpages

end Hvf
