/-
# Lists whose head is copied

A head that is copied by value still leads to the entries of its list, but the
entries lead back to where it was.  `splice` looks at the copy only, and stores
into both ends of the list, so it makes a ring again from any copy of the head
(`HeadCopy.splice`).
-/

import Hvf.Lib.Ring

namespace Ring

variable {ν : Type*}

/-- The nodes of `l` are linked in this order. -/
def Chain (k : Links ν) (l : List ν) : Prop :=
  l.IsChain fun a b => k.next a = some b ∧ k.prev b = some a

/-- A path is a chain of neighbours, the two ends among them. -/
theorem path_iff_chain {k : Links ν} {a b : ν} {l : List ν} :
    Path k a l b ↔ Chain k (a :: (l ++ [b])) := by
  induction l generalizing a with
  | nil => simp [Path, Chain]
  | cons c l ih =>
    rw [Path, ih, ← and_assoc, Chain, Chain, List.cons_append, List.isChain_cons_cons]

/-- A chain depends on the `next` of its nodes but the last and the `prev` of its
nodes but the first. -/
theorem Chain.congr {k k' : Links ν} {l : List ν} (h : Chain k l)
    (hnext : ∀ x ∈ l.dropLast, k'.next x = k.next x)
    (hprev : ∀ x ∈ l.tail, k'.prev x = k.prev x) : Chain k' l := by
  induction l with
  | nil => exact .nil
  | cons a l ih =>
    cases l with
    | nil => exact .singleton a
    | cons b l =>
      obtain ⟨hab, hrest⟩ := List.isChain_cons_cons.1 h
      refine .cons_cons ⟨?_, ?_⟩ (ih hrest (fun x hx => ?_) fun x hx => ?_)
      · rw [hnext a (List.mem_cons_self ..)]
        exact hab.1
      · rw [hprev b (List.mem_cons_self ..)]
        exact hab.2
      · exact hnext x (List.mem_cons_of_mem _ hx)
      · exact hprev x (List.mem_cons_of_mem _ hx)

/-- What is at `s` was the head of a list with the entries `l`, wherever these lead
back to. -/
structure HeadCopy (k : Links ν) (s : ν) (l : List ν) : Prop where
  nonempty : l ≠ []
  first : k.next s = l.head?
  last : k.prev s = l.getLast?
  chain : Chain k l
  nodup : l.Nodup

/-- A ring's head is a copy of itself, as long as there are nodes. -/
theorem IsRing.headCopy {k : Links ν} {h : ν} {l : List ν} (hring : IsRing k h l)
    (hl : l ≠ []) : HeadCopy k h l := by
  obtain ⟨c, l, rfl⟩ := List.exists_cons_of_ne_nil hl
  refine ⟨hl, hring.next_head, ?_, ?_, (List.nodup_cons.1 hring.nodup).2⟩
  · rw [hring.prev_head, List.getLastD_cons, List.getLast?_cons, List.getLastD_eq_getLast?]
  · have hchain := path_iff_chain.1 hring.path
    exact (List.isChain_append.1 (List.isChain_cons.1 hchain).2).1

/-- The node `x` has the same links. -/
def SameAt (k k' : Links ν) (x : ν) : Prop := k'.next x = k.next x ∧ k'.prev x = k.prev x

/-- Having the same links at a node composes. -/
theorem SameAt.trans {k k' k'' : Links ν} {x : ν} (h : SameAt k k' x) (h' : SameAt k' k'' x) :
    SameAt k k'' x :=
  ⟨h'.1.trans h.1, h'.2.trans h.2⟩

/-- A ring depends on the links at its nodes. -/
theorem IsRing.congr {k k' : Links ν} {h : ν} {l : List ν} (hring : IsRing k h l)
    (hsame : ∀ x ∈ h :: l, SameAt k k' x) : IsRing k' h l := by
  refine ⟨hring.path.congr (fun x hx => (hsame x hx).1) fun x hx => (hsame x ?_).2, hring.nodup⟩
  rcases List.mem_append.1 hx with hx | hx
  · exact List.mem_cons_of_mem _ hx
  · exact List.mem_singleton.1 hx ▸ List.mem_cons_self ..

/-- So does a copied head, with its own two links. -/
theorem HeadCopy.congr {k k' : Links ν} {s s' : ν} {l : List ν} (h : HeadCopy k s l)
    (hnext : k'.next s' = k.next s) (hprev : k'.prev s' = k.prev s)
    (hl : ∀ x ∈ l, SameAt k k' x) : HeadCopy k' s' l where
  nonempty := h.nonempty
  first := hnext.trans h.first
  last := hprev.trans h.last
  chain := h.chain.congr (fun x hx => (hl x (List.mem_of_mem_dropLast hx)).1)
    fun x hx => (hl x (List.mem_of_mem_tail hx)).2
  nodup := h.nodup

/-- Behind a node of a path is a node of it, or the end. -/
theorem Path.next_mem {k : Links ν} {a b x : ν} {l : List ν} (h : Path k a l b)
    (hx : x ∈ a :: l) : ∃ y ∈ l ++ [b], k.next x = some y := by
  induction l generalizing a with
  | nil =>
    obtain rfl := List.mem_singleton.1 hx
    exact ⟨b, List.mem_singleton_self b, h.1⟩
  | cons c l ih =>
    rcases List.mem_cons.1 hx with rfl | hx
    · exact ⟨c, List.mem_cons_self .., h.1⟩
    · obtain ⟨y, hy, hnext⟩ := ih h.2.2 hx
      exact ⟨y, List.mem_cons_of_mem _ hy, hnext⟩

/-- Before a node of a path is a node of it, or the beginning. -/
theorem Path.prev_mem {k : Links ν} {a b x : ν} {l : List ν} (h : Path k a l b)
    (hx : x ∈ l ++ [b]) : ∃ y ∈ a :: l, k.prev x = some y := by
  induction l generalizing a with
  | nil =>
    obtain rfl := List.mem_singleton.1 hx
    exact ⟨a, List.mem_singleton_self a, h.2⟩
  | cons c l ih =>
    rcases List.mem_cons.1 hx with rfl | hx
    · exact ⟨a, List.mem_cons_self .., h.2.1⟩
    · obtain ⟨y, hy, hprev⟩ := ih h.2.2 hx
      exact ⟨y, List.mem_cons_of_mem _ hy, hprev⟩

/-- **No link leads out of a ring.** -/
theorem IsRing.link_mem {k : Links ν} {h x y : ν} {l : List ν} (hring : IsRing k h l)
    (hx : x ∈ h :: l) (hlink : k.next x = some y ∨ k.prev x = some y) : y ∈ h :: l := by
  rcases hlink with hnext | hprev
  · obtain ⟨z, hz, hxz⟩ := hring.path.next_mem hx
    obtain rfl := Option.some.inj (hxz.symm.trans hnext)
    exact List.perm_append_singleton h l |>.mem_iff.1 hz
  · obtain ⟨z, hz, hxz⟩ := hring.path.prev_mem (List.perm_append_singleton h l |>.mem_iff.2 hx)
    obtain rfl := Option.some.inj (hxz.symm.trans hprev)
    exact hz

/-- **A chain is put in behind the head.** -/
theorem IsRing.insert [DecidableEq ν] {k k' : Links ν} {h first last n : ν} {l m : List ν}
    (hring : IsRing k h m) (hn : k.next h = some n) (hchain : Chain k l)
    (hfirst : l.head? = some first) (hlast : l.getLast? = some last)
    (hnodup : (h :: (l ++ m)).Nodup)
    (hnext : ∀ y, k'.next y
      = if y = last then some n else if y = h then some first else k.next y)
    (hprev : ∀ y, k'.prev y
      = if y = n then some last else if y = first then some h else k.prev y) :
    IsRing k' h (l ++ m) := by
  have hmem_first : first ∈ l := List.mem_of_mem_head? hfirst
  have hmem_last : last ∈ l := List.mem_of_mem_getLast? hlast
  obtain ⟨hh, hlm⟩ := List.nodup_cons.1 hnodup
  rw [List.mem_append, not_or] at hh
  obtain ⟨hl, hm, hdisjoint⟩ := List.nodup_append.1 hlm
  have hhead : (m ++ [h]).head? = some n := by
    rw [← hn, hring.next_head]
    cases m with
    | nil => rfl
    | cons c m => rfl
  have hnl : n ∉ l := by
    intro hmem
    rcases List.mem_append.1 (List.mem_of_mem_head? hhead) with hnm | hnh
    · exact hdisjoint n hmem n hnm rfl
    · exact hh.1 (List.mem_singleton.1 hnh ▸ hmem)
  refine ⟨path_iff_chain.2 ?_, hnodup⟩
  rw [List.append_assoc]
  refine List.isChain_cons.2 ⟨fun y hy => ?_, List.isChain_append.2 ⟨?_, ?_, fun x hx y hy => ?_⟩⟩
  · rw [List.head?_append, hfirst, Option.some_or, Option.mem_some_iff] at hy
    subst hy
    have hne : h ≠ last := fun heq => hh.1 (heq ▸ hmem_last)
    have hne' : first ≠ n := fun heq => hnl (heq ▸ hmem_first)
    exact ⟨by rw [hnext, if_neg hne, if_pos rfl], by rw [hprev, if_neg hne', if_pos rfl]⟩
  · refine hchain.congr (fun x hx => ?_) fun x hx => ?_
    · have hxl : x ∈ l := List.mem_of_mem_dropLast hx
      have hne : x ≠ last := by
        obtain ⟨front, rfl⟩ := List.getLast?_eq_some_iff.1 hlast
        rw [List.dropLast_concat] at hx
        exact (List.nodup_append.1 hl).2.2 x hx last (List.mem_singleton_self _)
      have hne' : x ≠ h := fun heq => hh.1 (heq ▸ hxl)
      rw [hnext, if_neg hne, if_neg hne']
    · have hxl : x ∈ l := List.mem_of_mem_tail hx
      have hne : x ≠ n := fun heq => hnl (heq ▸ hxl)
      have hne' : x ≠ first := by
        obtain ⟨rest, rfl⟩ := List.head?_eq_some_iff.1 hfirst
        rintro rfl
        exact (List.nodup_cons.1 hl).1 hx
      rw [hprev, if_neg hne, if_neg hne']
  · have hold := (List.isChain_cons.1 (path_iff_chain.1 hring.path)).2
    refine Chain.congr hold (fun x hx => ?_) fun x hx => ?_
    · rw [List.dropLast_concat] at hx
      have hne : x ≠ last := fun heq => hdisjoint last hmem_last x hx heq.symm
      have hne' : x ≠ h := fun heq => hh.2 (heq ▸ hx)
      rw [hnext, if_neg hne, if_neg hne']
    · have hne : x ≠ n := by
        obtain ⟨rest, hrest⟩ := List.head?_eq_some_iff.1 hhead
        have hmh : (m ++ [h]).Nodup :=
          List.nodup_append_comm.1 (List.nodup_cons.2 ⟨hh.2, hm⟩)
        rw [hrest] at hx hmh
        rintro rfl
        exact (List.nodup_cons.1 hmh).1 hx
      have hne' : x ≠ first := by
        rintro rfl
        rcases List.mem_append.1 (List.mem_of_mem_tail hx) with hxm | hxh
        · exact hdisjoint x hmem_first x hxm rfl
        · exact hh.1 (List.mem_singleton.1 hxh ▸ hmem_first)
      rw [hprev, if_neg hne, if_neg hne']
  · obtain rfl : last = x := Option.some.inj (hlast.symm.trans hx)
    obtain rfl : n = y := Option.some.inj (hhead.symm.trans hy)
    exact ⟨by rw [hnext, if_pos rfl], by rw [hprev, if_pos rfl]⟩

section Stores

variable [DecidableEq ν]

/-- A list without entries. -/
def Links.init (x : ν) (k : Links ν) : Links ν :=
  (k.put (.next x (some x))).put (.prev x (some x))

/-- `x` becomes the first entry of the list with head `h`. -/
def Links.addHead (x h : ν) (k : Links ν) : Option (Links ν) :=
  (k.next h).map fun n => (addStores x h n).foldl Links.put k

/-- The node at `src` is copied to `dst` by value. -/
def Links.copy (src dst : ν) (k : Links ν) : Links ν :=
  (k.put (.next dst (k.next src))).put (.prev dst (k.prev src))

/-- The stores that put a list, without its head, between `h` and `n`. -/
def spliceStores (h first last n : ν) : List (Store ν) :=
  [.prev first (some h), .next h (some first), .next last (some n), .prev n (some last)]

/-- The entries of the list with head `s` go behind the head `h`. -/
def Links.splice (s h : ν) (k : Links ν) : Option (Links ν) :=
  if k.next s = some s then some k
  else do
    let first ← k.next s
    let last ← k.prev s
    let n ← k.next h
    return (spliceStores h first last n).foldl Links.put k

/-- A head just initialized is an empty ring. -/
theorem init_isRing (k : Links ν) (x : ν) : IsRing (k.init x) x [] :=
  ⟨by simp [Path, Links.init, Links.put], List.nodup_singleton x⟩

/-- Initializing a head touches no other node. -/
theorem init_of_ne (k : Links ν) {x y : ν} (h : y ≠ x) : SameAt k (k.init x) y :=
  ⟨Function.update_of_ne h .., Function.update_of_ne h ..⟩

/-- Copying a head touches no other node. -/
theorem copy_of_ne (k : Links ν) (s : ν) {dst y : ν} (h : y ≠ dst) : SameAt k (k.copy s dst) y :=
  ⟨Function.update_of_ne h .., Function.update_of_ne h ..⟩

/-- A copy of a copied head is one. -/
theorem HeadCopy.copy {k : Links ν} {s dst : ν} {l : List ν} (h : HeadCopy k s l)
    (hdst : dst ∉ l) : HeadCopy (k.copy s dst) dst l := by
  refine h.congr (Function.update_self ..) (Function.update_self ..) fun x hx => copy_of_ne k s ?_
  rintro rfl
  exact hdst hx

/-- **Adding at the beginning** of a ring gives the ring with the node in front, and touches no
node outside. -/
theorem IsRing.addHead {k : Links ν} {h x : ν} {l : List ν} (hring : IsRing k h l)
    (hx : x ∉ h :: l) : ∃ k', k.addHead x h = some k' ∧ IsRing k' h (x :: l) ∧
      ∀ y ∉ h :: x :: l, SameAt k k' y := by
  have hnodup : (h :: ([x] ++ l)).Nodup := by
    have hne : h ≠ x := fun heq => hx (heq ▸ List.mem_cons_self ..)
    obtain ⟨hh, hl⟩ := List.nodup_cons.1 hring.nodup
    simp only [List.singleton_append, List.nodup_cons, List.mem_cons, not_or]
    exact ⟨⟨hne, hh⟩, fun hmem => hx (List.mem_cons_of_mem _ hmem), hl⟩
  refine ⟨_, by rw [Links.addHead, hring.next_head]; rfl,
    hring.insert hring.next_head (.singleton x) rfl rfl hnodup (fun y => ?_) fun y => ?_,
    fun y hy => ?_⟩
  · have hne : x ≠ h := fun heq => hx (heq ▸ List.mem_cons_self ..)
    simp only [addStores, List.foldl, Links.put, Function.update_apply]
    split_ifs <;> simp_all
  · have hne : x ≠ l.headD h := by
      rintro rfl
      cases l with
      | nil => simp at hx
      | cons c l => simp at hx
    simp only [addStores, List.foldl, Links.put, Function.update_apply]
    split_ifs <;> simp_all
  · simp only [List.mem_cons, not_or] at hy
    obtain ⟨hyh, hyx, hyl⟩ := hy
    have hyn : y ≠ l.headD h := by
      rintro rfl
      cases l with
      | nil => exact hyh rfl
      | cons c l => exact hyl (List.mem_cons_self ..)
    generalize l.headD h = n at hyn ⊢
    simp [SameAt, addStores, Links.put, hyh, hyx, hyn]

/-- Adding at the end touches no node outside. -/
theorem IsRing.addTail_of_notMem {k k' : Links ν} {h x : ν} {l : List ν} (hring : IsRing k h l)
    (hadd : k.addTail x h = some k') : ∀ y ∉ h :: x :: l, SameAt k k' y := by
  intro y hy
  rw [Links.addTail, hring.prev_head] at hadd
  obtain rfl := Option.some.inj hadd
  simp only [List.mem_cons, not_or] at hy
  obtain ⟨hyh, hyx, hyl⟩ := hy
  have hyp : y ≠ l.getLastD h := by
    rcases List.eq_nil_or_concat' l with rfl | ⟨l, c, rfl⟩
    · exact hyh
    · rw [List.getLastD_concat]
      rintro rfl
      exact hyl (List.mem_append_right _ (List.mem_singleton_self y))
  generalize l.getLastD h = p at hyp ⊢
  simp [SameAt, addStores, Links.put, hyh, hyx, hyp]

/-- **A copy of a head will do:** the entries go behind another head in their
order. -/
theorem HeadCopy.splice {k : Links ν} {s h : ν} {l m : List ν} (hcopy : HeadCopy k s l)
    (hring : IsRing k h m) (hs : s ∉ l) (hnodup : (h :: (l ++ m)).Nodup) :
    ∃ k', k.splice s h = some k' ∧ IsRing k' h (l ++ m) ∧ ∀ y ∉ h :: (l ++ m), SameAt k k' y := by
  obtain ⟨first, hfirst⟩ := Option.isSome_iff_exists.1 (List.isSome_head?.2 hcopy.nonempty)
  obtain ⟨last, hlast⟩ := Option.isSome_iff_exists.1 (List.getLast?_isSome.2 hcopy.nonempty)
  have hne : k.next s ≠ some s := by
    rw [hcopy.first, hfirst]
    intro heq
    exact hs (Option.some.inj heq ▸ List.mem_of_mem_head? hfirst)
  refine ⟨(spliceStores h first last (m.headD h)).foldl Links.put k, ?_,
    hring.insert hring.next_head hcopy.chain hfirst hlast hnodup (fun y => ?_) fun y => ?_,
    fun y hy => ?_⟩
  · rw [Links.splice, if_neg hne, hcopy.first, hfirst, hcopy.last, hlast, hring.next_head]
    rfl
  · simp only [spliceStores, List.foldl, Links.put, Function.update_apply]
  · simp only [spliceStores, List.foldl, Links.put, Function.update_apply]
  · simp only [List.mem_cons, List.mem_append, not_or] at hy
    obtain ⟨hyh, hyl, hym⟩ := hy
    have hfirst' : y ≠ first := fun heq => hyl (heq ▸ List.mem_of_mem_head? hfirst)
    have hlast' : y ≠ last := fun heq => hyl (heq ▸ List.mem_of_mem_getLast? hlast)
    have hyn : y ≠ m.headD h := by
      rintro rfl
      cases m with
      | nil => exact hyh rfl
      | cons c m => exact hym (List.mem_cons_self ..)
    generalize m.headD h = n at hyn ⊢
    simp [SameAt, spliceStores, Links.put, hyh, hfirst', hlast', hyn]

end Stores

end Ring
