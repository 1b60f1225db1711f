/-
# Circular doubly linked lists

A list is a ring through its head: `next` leads from the head through the entries
and back to it, `prev` the other way round.  An entry is put in and taken out by
stores into the nodes around it, one after the other; between two of them there
may be no ring.  `none` is a pointer that cannot be followed.
-/

import Mathlib.Tactic

namespace Ring

variable {ν : Type*}

/-- **The pointers of all nodes** of doubly linked lists, forward and backward; a node that
is on no list may have any. -/
structure Links (ν : Type*) where
  next : ν → Option ν
  prev : ν → Option ν

/-- **A store into one pointer**, the smallest step that another reader of the links may
see. -/
inductive Store (ν : Type*)
  | next (x : ν) (y : Option ν)
  | prev (x : ν) (y : Option ν)

/-- The stores that put `x` between `p` and `n`. -/
def addStores (x p n : ν) : List (Store ν) :=
  [.prev n (some x), .next x (some n), .prev x (some p), .next p (some x)]

/-- The stores that take `x` out from between `p` and `n`. -/
def delStores (x p n : ν) : List (Store ν) :=
  [.prev n (some p), .next p (some n), .next x none, .prev x none]

/-- The nodes `a`, `l`, `b` are linked in this order. -/
def Path (k : Links ν) : ν → List ν → ν → Prop
  | a, [], b => k.next a = some b ∧ k.prev b = some a
  | a, c :: l, b => k.next a = some c ∧ k.prev c = some a ∧ Path k c l b

/-- `next` leads from `a` over `l` to `b`. -/
def Forward (k : Links ν) : ν → List ν → ν → Prop
  | a, [], b => k.next a = some b
  | a, c :: l, b => k.next a = some c ∧ Forward k c l b

/-- **The list with head `h` has the entries `l`**, each of them once: both ways round the
pointers go through them in order, and back to the head. -/
structure IsRing (k : Links ν) (h : ν) (l : List ν) : Prop where
  path : Path k h l h
  nodup : (h :: l).Nodup

/-- A path over a node is a path to it and one from it on. -/
theorem path_append {k : Links ν} {a c b : ν} {l l' : List ν} :
    Path k a (l ++ c :: l') b ↔ Path k a l c ∧ Path k c l' b := by
  induction l generalizing a with
  | nil => simp only [List.nil_append, Path, and_assoc]
  | cons d l ih => simp only [List.cons_append, Path, ih, and_assoc]

/-- A path depends on the `next` of its nodes but the last and the `prev` of its
nodes but the first. -/
theorem Path.congr {k k' : Links ν} {a b : ν} {l : List ν} (h : Path k a l b)
    (hnext : ∀ x ∈ a :: l, k'.next x = k.next x)
    (hprev : ∀ x ∈ l ++ [b], k'.prev x = k.prev x) : Path k' a l b := by
  induction l generalizing a with
  | nil =>
    refine ⟨?_, ?_⟩
    · rw [hnext a List.mem_cons_self, h.1]
    · rw [hprev b (List.mem_singleton_self b), h.2]
  | cons c l ih =>
    obtain ⟨hac, hca, hpath⟩ := h
    refine ⟨?_, ?_, ih hpath (fun x hx => hnext x (List.mem_cons_of_mem _ hx)) fun x hx => ?_⟩
    · rw [hnext a List.mem_cons_self, hac]
    · rw [hprev c List.mem_cons_self, hca]
    · exact hprev x (List.mem_cons_of_mem _ hx)

/-- A path, read by its forward links alone. -/
theorem Path.forward {k : Links ν} {a b : ν} {l : List ν} (h : Path k a l b) :
    Forward k a l b := by
  induction l generalizing a with
  | nil => exact h.1
  | cons c l ih => exact ⟨h.1, ih h.2.2⟩

/-- The forward links along a path are all it depends on. -/
theorem Forward.congr {k k' : Links ν} {a b : ν} {l : List ν} (h : Forward k a l b)
    (hnext : ∀ x ∈ a :: l, k'.next x = k.next x) : Forward k' a l b := by
  induction l generalizing a with
  | nil => exact (hnext a List.mem_cons_self).trans h
  | cons c l ih =>
    exact ⟨(hnext a List.mem_cons_self).trans h.1,
      ih h.2 fun x hx => hnext x (List.mem_cons_of_mem _ hx)⟩

/-- `next` alone determines the entries. -/
theorem Forward.entries_unique {k : Links ν} {a b : ν} {l l' : List ν} (h : Forward k a l b)
    (h' : Forward k a l' b) (hb : b ∉ l) (hb' : b ∉ l') : l = l' := by
  induction l generalizing a l' with
  | nil =>
    cases l' with
    | nil => rfl
    | cons c l' =>
      have heq : some b = some c := h.symm.trans h'.1
      exact absurd (Option.some.inj heq ▸ List.mem_cons_self) hb'
  | cons c l ih =>
    cases l' with
    | nil =>
      have heq : some b = some c := h'.symm.trans h.1
      exact absurd (Option.some.inj heq ▸ List.mem_cons_self) hb
    | cons c' l' =>
      obtain rfl := Option.some.inj (h.1.symm.trans h'.1)
      rw [ih h.2 h'.2 (fun hmem => hb (List.mem_cons_of_mem _ hmem))
        fun hmem => hb' (List.mem_cons_of_mem _ hmem)]

/-- No other list than `l` can be read from the head. -/
theorem Forward.eq_of_isRing {k : Links ν} {h : ν} {l l' : List ν} (hforward : Forward k h l h)
    (hhl : h ∉ l) (hring : IsRing k h l') : l' = l :=
  hring.path.forward.entries_unique hforward (List.nodup_cons.1 hring.nodup).1 hhl

/-- Behind the head is the ring's first node, or the head itself. -/
theorem IsRing.next_head {k : Links ν} {h : ν} {l : List ν} (hring : IsRing k h l) :
    k.next h = some (l.headD h) := by
  have hpath := hring.path
  cases l with
  | nil => exact hpath.1
  | cons c l => exact hpath.1

/-- Before the head is the ring's last node, or the head itself. -/
theorem IsRing.prev_head {k : Links ν} {h : ν} {l : List ν} (hring : IsRing k h l) :
    k.prev h = some (l.getLastD h) := by
  have hpath := hring.path
  rcases List.eq_nil_or_concat' l with rfl | ⟨l, c, rfl⟩
  · exact hpath.2
  · rw [List.getLastD_concat]
    exact (path_append.1 hpath).2.2

section Stores

variable [DecidableEq ν]

/-- One link stored. -/
def Links.put (k : Links ν) : Store ν → Links ν
  | .next x y => { k with next := Function.update k.next x y }
  | .prev x y => { k with prev := Function.update k.prev x y }

/-- `x` becomes the last entry of the list with head `h`. -/
def Links.addTail (x h : ν) (k : Links ν) : Option (Links ν) :=
  (k.prev h).map fun p => (addStores x p h).foldl Links.put k

/-- `x` is taken out of its list, and its pointers cannot be followed any more. -/
def Links.del (x : ν) (k : Links ν) : Option (Links ν) := do
  let p ← k.prev x
  let n ← k.next x
  return (delStores x p n).foldl Links.put k

/-- **Putting an entry in at the end.** -/
theorem IsRing.add {k : Links ν} {h x p : ν} {l : List ν} (hring : IsRing k h l)
    (hp : k.prev h = some p) (hx : x ∉ h :: l) :
    IsRing ((addStores x p h).foldl Links.put k) h (l ++ [x]) := by
  obtain ⟨hpath, hnodup⟩ := hring
  have hne : h ≠ x := fun heq => hx (heq ▸ List.mem_cons_self)
  have hnext : ∀ y, ((addStores x p h).foldl Links.put k).next y =
      if y = p then some x else if y = x then some h else k.next y := fun y => by
    simp only [addStores, List.foldl, Links.put, Function.update_apply]
  have hprev : ∀ y, ((addStores x p h).foldl Links.put k).prev y =
      if y = x then some p else if y = h then some x else k.prev y := fun y => by
    simp only [addStores, List.foldl, Links.put, Function.update_apply]
  refine ⟨?_, ?_⟩
  · rcases List.eq_nil_or_concat' l with rfl | ⟨l, c, rfl⟩
    · have hph : p = h := Option.some.inj (hp.symm.trans hpath.2)
      refine ⟨?_, ?_, ?_, ?_⟩
      · rw [hnext, if_pos hph.symm]
      · rw [hprev, if_pos rfl, hph]
      · rw [hnext, hph, if_neg hne.symm, if_pos rfl]
      · rw [hprev, if_neg hne, if_pos rfl]
    · obtain ⟨hfront, hlast⟩ := path_append.1 hpath
      have hpc : p = c := Option.some.inj (hp.symm.trans hlast.2)
      have hcx : c ≠ x := by
        rintro rfl
        simp at hx
      rw [List.append_assoc]
      refine path_append.2 ⟨hfront.congr (fun y hy => ?_) fun y hy => ?_, ?_, ?_, ?_, ?_⟩
      · rw [hnext, if_neg, if_neg]
        · rintro rfl
          exact hx (List.mem_append_left [c] hy)
        · rintro rfl
          rw [hpc] at hy
          have hsplit : ((h :: l) ++ [c]).Nodup := hnodup
          exact (List.nodup_append.1 hsplit).2.2 c hy c (List.mem_singleton_self c) rfl
      · rw [hprev, if_neg, if_neg]
        · rintro rfl
          exact (List.nodup_cons.1 hnodup).1 hy
        · rintro rfl
          exact hx (List.mem_cons_of_mem _ hy)
      · rw [hnext, if_pos hpc.symm]
      · rw [hprev, if_pos rfl, hpc]
      · rw [hnext, hpc, if_neg hcx.symm, if_pos rfl]
      · rw [hprev, if_neg hne, if_pos rfl]
  · have hsplit : (h :: l ++ [x]).Nodup :=
      List.nodup_append_comm.1 (List.nodup_cons.2 ⟨hx, hnodup⟩)
    exact hsplit

/-- **Adding at the end** of a ring gives the ring with the node at the end. -/
theorem IsRing.addTail {k : Links ν} {h x : ν} {l : List ν} (hring : IsRing k h l)
    (hx : x ∉ h :: l) : ∃ k', k.addTail x h = some k' ∧ IsRing k' h (l ++ [x]) := by
  refine ⟨_, ?_, hring.add hring.prev_head hx⟩
  rw [Links.addTail, hring.prev_head, Option.map_some]

/-- No link leads out of `P`. -/
def Closed (P : ν → Prop) (k : Links ν) : Prop :=
  ∀ x y, P x → k.next x = some y ∨ k.prev x = some y → P y

/-- Nodes that link only among themselves do so with one node more. -/
theorem Closed.addTail {P : ν → Prop} {k k' : Links ν} {h x : ν} (hclosed : Closed P k)
    (hh : P h) (hadd : k.addTail x h = some k') : Closed (fun y => P y ∨ y = x) k' := by
  obtain ⟨p, hp, rfl⟩ := Option.map_eq_some_iff.1 hadd
  have hPp : P p := hclosed h p hh (Or.inr hp)
  rintro y z hy (hz | hz)
  · simp only [addStores, List.foldl, Links.put, Function.update_apply] at hz
    split_ifs at hz with hyp hyx
    · exact Or.inr (Option.some.inj hz).symm
    · exact Or.inl (Option.some.inj hz ▸ hh)
    · exact Or.inl (hclosed y z (hy.resolve_right hyx) (Or.inl hz))
  · simp only [addStores, List.foldl, Links.put, Function.update_apply] at hz
    split_ifs at hz with hyx hyh
    · exact Or.inl (Option.some.inj hz ▸ hPp)
    · exact Or.inr (Option.some.inj hz).symm
    · exact Or.inl (hclosed y z (hy.resolve_right hyx) (Or.inr hz))

/-- Nodes that link only among themselves do so without one of them. -/
theorem Closed.del {P : ν → Prop} {k k' : Links ν} {x : ν} (hclosed : Closed P k) (hx : P x)
    (hdel : k.del x = some k') : Closed P k' := by
  simp only [Links.del, Option.bind_eq_bind, Option.bind_eq_some_iff] at hdel
  obtain ⟨p, hp, n, hn, hk⟩ := hdel
  obtain rfl := Option.some.inj hk
  rintro y z hy (hz | hz)
  · simp only [delStores, List.foldl, Links.put, Function.update_apply] at hz
    split_ifs at hz with hyx hyp
    · exact Option.some.inj hz ▸ hclosed x n hx (Or.inl hn)
    · exact hclosed y z hy (Or.inl hz)
  · simp only [delStores, List.foldl, Links.put, Function.update_apply] at hz
    split_ifs at hz with hyx hyn
    · exact Option.some.inj hz ▸ hclosed x p hx (Or.inr hp)
    · exact hclosed y z hy (Or.inr hz)

/-- What each of the stores leaves as it was, they all do. -/
theorem foldl_put {β : Type*} (f : Links ν → β) (k : Links ν) {stores : List (Store ν)}
    (hstore : ∀ store ∈ stores, ∀ k : Links ν, f (k.put store) = f k) :
    f (stores.foldl Links.put k) = f k := by
  induction stores generalizing k with
  | nil => rfl
  | cons store stores ih =>
    rw [List.foldl_cons, ih _ fun s hs => hstore s (List.mem_cons_of_mem _ hs),
      hstore store List.mem_cons_self]

/-- `x` is being put in behind the entries `l`; the stores `stores` are left. -/
def Adding (k : Links ν) (h : ν) (l : List ν) (x : ν) (stores : List (Store ν)) : Prop :=
  ∃ k₀ p done, IsRing k₀ h l ∧ k₀.prev h = some p ∧ k = done.foldl Links.put k₀ ∧
    done ++ stores = addStores x p h ∧ stores ≠ []

/-- Before the first of the four stores the ring is as it was. -/
theorem IsRing.adding {k : Links ν} {h x p : ν} {l : List ν} (hring : IsRing k h l)
    (hp : k.prev h = some p) : Adding k h l x (addStores x p h) :=
  ⟨k, p, [], hring, hp, rfl, rfl, List.cons_ne_nil _ _⟩

/-- Each store but the last leaves the ring readable from the head. -/
theorem Adding.put {k : Links ν} {h x : ν} {l : List ν} {store : Store ν}
    {stores : List (Store ν)} (hadding : Adding k h l x (store :: stores)) (hleft : stores ≠ []) :
    Adding (k.put store) h l x stores := by
  obtain ⟨k₀, p, done, hring, hp, rfl, hdone, _⟩ := hadding
  refine ⟨k₀, p, done ++ [store], hring, hp, ?_, ?_, hleft⟩
  · rw [List.foldl_append]
    rfl
  · rw [List.append_assoc, ← hdone]
    rfl

/-- **With the last store the node is in the ring.** -/
theorem Adding.put_last {k : Links ν} {h x : ν} {l : List ν} {store : Store ν}
    (hadding : Adding k h l x [store]) (hx : x ∉ h :: l) : IsRing (k.put store) h (l ++ [x]) := by
  obtain ⟨k₀, p, done, hring, hp, rfl, hdone, _⟩ := hadding
  have hall := hring.add hp hx
  rwa [← hdone, List.foldl_append] at hall

/-- **An entry that is not put in yet** cannot be reached from the head. -/
theorem Adding.forward {k : Links ν} {h x : ν} {l : List ν} {stores : List (Store ν)}
    (hadding : Adding k h l x stores) (hx : x ∉ h :: l) : Forward k h l h := by
  obtain ⟨k₀, p, done, hring, hp, rfl, hdone, hleft⟩ := hadding
  refine hring.path.forward.congr fun y hy => ?_
  have hyx : y ≠ x := fun heq => hx (heq ▸ hy)
  -- of the stores before the last, only the second is into a `next`, that of `x`
  refine foldl_put (fun k => k.next y) k₀ fun store hstore k => ?_
  have hlast : store ∈ (addStores x p h).dropLast := by
    rw [← hdone, List.dropLast_append_of_ne_nil hleft]
    exact List.mem_append_left _ hstore
  simp only [addStores, List.dropLast, List.mem_cons, List.not_mem_nil, or_false] at hlast
  rcases hlast with rfl | rfl | rfl
  · rfl
  · exact Function.update_of_ne hyx _ _
  · rfl

/-- **Taking the first entry out.** -/
theorem IsRing.del_first {k : Links ν} {h x : ν} {l : List ν} (hring : IsRing k h (x :: l)) :
    ∃ k', k.del x = some k' ∧ IsRing k' h l := by
  obtain ⟨⟨_, hprev, hpath⟩, hnodup⟩ := hring
  obtain ⟨hhx, hxl⟩ := List.nodup_cons.1 hnodup
  have hhl : h ∉ l := fun hmem => hhx (List.mem_cons_of_mem _ hmem)
  have hne : h ≠ x := fun heq => hhx (heq ▸ List.mem_cons_self)
  have hxl' := (List.nodup_cons.1 hxl).1
  cases l with
  | nil =>
    refine ⟨_, by rw [Links.del, hprev, hpath.1]; rfl, ⟨?_, ?_⟩, List.nodup_singleton h⟩
    · simp [delStores, Links.put, hne]
    · simp [delStores, Links.put, hne]
  | cons c l =>
    have hcx : c ≠ x := fun heq => hxl' (heq ▸ List.mem_cons_self)
    obtain ⟨hxc, _, hrest⟩ := hpath
    have hcl := (List.nodup_cons.1 (List.nodup_cons.1 hxl).2).1
    refine ⟨_, by rw [Links.del, hprev, hxc]; rfl, ⟨?_, ?_, ?_⟩,
      List.nodup_cons.2 ⟨hhl, (List.nodup_cons.1 hxl).2⟩⟩
    · simp [delStores, Links.put, hne]
    · simp [delStores, Links.put, hcx]
    · refine hrest.congr (fun y hy => ?_) fun y hy => ?_
      · have hyx : y ≠ x := fun heq => hxl' (heq ▸ hy)
        have hyh : y ≠ h := fun heq => hhl (heq ▸ hy)
        simp [delStores, Links.put, hyx, hyh]
      · have hyx : y ≠ x := by
          rintro rfl
          rcases List.mem_append.1 hy with hmem | hmem
          · exact hxl' (List.mem_cons_of_mem _ hmem)
          · exact hne (List.mem_singleton.1 hmem).symm
        have hyc : y ≠ c := by
          rintro rfl
          rcases List.mem_append.1 hy with hmem | hmem
          · exact hcl hmem
          · exact hhl (List.mem_singleton.1 hmem ▸ List.mem_cons_self)
        simp [delStores, Links.put, hyx, hyc]

/-! ### Other changes while an entry is being put in -/

/-- Nothing is stored yet, or the head leads back to the entry. -/
theorem Adding.cases {k : Links ν} {h x : ν} {l : List ν} {stores : List (Store ν)}
    (hadding : Adding k h l x stores) (hx : x ∉ h :: l) :
    (IsRing k h l ∧ ∃ p, k.prev h = some p ∧ stores = addStores x p h) ∨
      (k.prev h = some x ∧ ∀ y l', l = y :: l' → k.prev y = some h) := by
  obtain ⟨k₀, p, done, hring, hp, rfl, hdone, hleft⟩ := hadding
  cases done with
  | nil => exact Or.inl ⟨hring, p, hp, hdone⟩
  | cons store done =>
    have hne : h ≠ x := fun heq => hx (heq ▸ List.mem_cons_self)
    obtain ⟨rfl, hdone'⟩ := List.cons.inj hdone
    rw [List.append_eq] at hdone'
    -- of the other stores only one is into a `prev`, that of `x`
    have hrest : ∀ y ≠ x, ∀ k : Links ν, (done.foldl Links.put k).prev y = k.prev y := by
      intro y hy k
      refine foldl_put (fun k => k.prev y) k fun store hstore k => ?_
      have hmem := List.mem_append_left stores hstore
      rw [hdone'] at hmem
      simp only [List.mem_cons, List.not_mem_nil, or_false] at hmem
      rcases hmem with rfl | rfl | rfl
      · rfl
      · exact Function.update_of_ne hy _ _
      · rfl
    refine Or.inr ⟨?_, ?_⟩
    · rw [List.foldl_cons, hrest h hne]
      exact Function.update_self _ _ _
    · rintro y l' rfl
      have hyx : y ≠ x := fun heq => hx (heq ▸ List.mem_cons_of_mem _ List.mem_cons_self)
      have hyh : y ≠ h := fun heq => (List.nodup_cons.1 hring.nodup).1 (heq ▸ List.mem_cons_self)
      rw [List.foldl_cons, hrest y hyx]
      exact (Function.update_of_ne hyh _ _).trans hring.path.2.1

/-- A node put in behind one that cannot be reached cannot be reached either. -/
theorem Forward.addTail {k k' : Links ν} {h p x : ν} {l : List ν} (hforward : Forward k h l h)
    (hp : k.prev h = some p) (hpl : p ∉ h :: l) (hx : x ∉ h :: l)
    (hadd : k.addTail x h = some k') :
    Forward k' h l h ∧ ∀ y ∈ l, y ≠ h → k'.prev y = k.prev y := by
  rw [Links.addTail, hp] at hadd
  obtain rfl := Option.some.inj hadd
  refine ⟨hforward.congr fun y hy => ?_, fun y hy hyh => ?_⟩
  · have hyp : y ≠ p := fun heq => hpl (heq ▸ hy)
    have hyx : y ≠ x := fun heq => hx (heq ▸ hy)
    simp [addStores, Links.put, hyp, hyx]
  · have hyx : y ≠ x := fun heq => hx (heq ▸ List.mem_cons_of_mem _ hy)
    simp [addStores, Links.put, hyh, hyx]

/-- Taking out the first node leaves the rest of the forward path. -/
theorem Forward.del_first {k k' : Links ν} {h x : ν} {l : List ν}
    (hforward : Forward k h (x :: l) h) (hprev : k.prev x = some h) (hnodup : (h :: x :: l).Nodup)
    (hdel : k.del x = some k') : Forward k' h l h := by
  obtain ⟨hhx, hxl⟩ := List.nodup_cons.1 hnodup
  have hxl' := (List.nodup_cons.1 hxl).1
  have hne : h ≠ x := fun heq => hhx (heq ▸ List.mem_cons_self)
  have hhl : h ∉ l := fun hmem => hhx (List.mem_cons_of_mem _ hmem)
  have hrest := hforward.2
  cases l with
  | nil =>
    have hnext : k.next x = some h := hrest
    rw [Links.del, hprev, hnext] at hdel
    obtain rfl := Option.some.inj hdel
    have hhead : ((delStores x h h).foldl Links.put k).next h = some h := by
      simp [delStores, Links.put, hne]
    exact hhead
  | cons c l =>
    rw [Links.del, hprev, hrest.1] at hdel
    obtain rfl := Option.some.inj hdel
    refine ⟨?_, hrest.2.congr fun y hy => ?_⟩
    · simp [delStores, Links.put, hne]
    · have hyx : y ≠ x := fun heq => hxl' (heq ▸ hy)
      have hyh : y ≠ h := fun heq => hhl (heq ▸ hy)
      simp [delStores, Links.put, hyx, hyh]

/-! ### Entries that are put in twice -/

/-- **Taking the last entry out.** -/
theorem IsRing.del_last {k : Links ν} {h x : ν} {l : List ν} (hring : IsRing k h (l ++ [x])) :
    ∃ k', k.del x = some k' ∧ IsRing k' h l := by
  obtain ⟨hpath, hnodup⟩ := hring
  obtain ⟨hfront, hxh, -⟩ := path_append.1 hpath
  have hsplit : (h :: l ++ [x]).Nodup := hnodup
  obtain ⟨hhl, -, hdisj⟩ := List.nodup_append.1 hsplit
  have hx : x ∉ h :: l := fun hmem => hdisj x hmem x (List.mem_singleton_self x) rfl
  have hne : h ≠ x := fun heq => hx (heq ▸ List.mem_cons_self)
  have hnext : ∀ p y, ((delStores x p h).foldl Links.put k).next y =
      if y = x then none else if y = p then some h else k.next y := fun p y => by
    simp only [delStores, List.foldl, Links.put, Function.update_apply]
  have hprev : ∀ p y, ((delStores x p h).foldl Links.put k).prev y =
      if y = x then none else if y = h then some p else k.prev y := fun p y => by
    simp only [delStores, List.foldl, Links.put, Function.update_apply]
  rcases List.eq_nil_or_concat' l with rfl | ⟨l, c, rfl⟩
  · refine ⟨_, by rw [Links.del, hfront.2, hxh]; rfl, ⟨?_, ?_⟩, hhl⟩
    · rw [hnext, if_neg hne, if_pos rfl]
    · rw [hprev, if_neg hne, if_pos rfl]
  · obtain ⟨hfront, -, hlast⟩ := path_append.1 hfront
    have hcx : c ≠ x := fun heq => hx (heq ▸ by simp)
    refine ⟨_, by rw [Links.del, hlast, hxh]; rfl,
      path_append.2 ⟨hfront.congr (fun y hy => ?_) fun y hy => ?_, ?_, ?_⟩, hhl⟩
    · have hyx : y ≠ x := fun heq => hx (heq ▸ List.mem_append_left [c] hy)
      have hyc : y ≠ c := fun heq =>
        (List.nodup_append.1 (show ((h :: l) ++ [c]).Nodup from hhl)).2.2 y hy c
          (List.mem_singleton_self c) heq
      rw [hnext, if_neg hyx, if_neg hyc]
    · have hyx : y ≠ x := fun heq => hx (heq ▸ List.mem_cons_of_mem _ hy)
      have hyh : y ≠ h := fun heq => (List.nodup_cons.1 hhl).1 (heq ▸ hy)
      rw [hprev, if_neg hyx, if_neg hyh]
    · rw [hnext, if_neg hcx, if_pos rfl]
    · rw [hprev, if_neg hne, if_pos rfl]

/-- The head leads over `l` to `x`, and `prev` does not lead from `x` back there; what
was put in last is neither the head nor in `l`. -/
structure Severed (k : Links ν) (h : ν) (l : List ν) (x : ν) : Prop where
  forward : Forward k h l x
  prev : ∀ y ∈ h :: l, k.prev x ≠ some y
  head : ∀ y ∈ h :: l, k.prev h ≠ some y
  isSome : (k.prev h).isSome
  fresh : x ≠ h ∧ h ∉ l

omit [DecidableEq ν] in
/-- **No ring any more.** -/
theorem Severed.not_isRing {k : Links ν} {h x : ν} {l l' : List ν} (hsevered : Severed k h l x) :
    ¬ IsRing k h l' := by
  intro hring
  have hprefix : ∀ {a : ν} {l l' : List ν}, Path k a l' h → Forward k a l x → h ∉ l →
      ∃ y ∈ a :: l, k.prev x = some y := by
    intro a l
    induction l generalizing a with
    | nil =>
      intro l' hpath hforward hh
      cases l' with
      | nil => exact absurd (Option.some.inj (hforward.symm.trans hpath.1)) hsevered.fresh.1
      | cons c l' =>
        obtain rfl : x = c := Option.some.inj (hforward.symm.trans hpath.1)
        exact ⟨a, List.mem_cons_self, hpath.2.1⟩
    | cons c l ih =>
      intro l' hpath hforward hh
      cases l' with
      | nil =>
        obtain rfl : c = h := Option.some.inj (hforward.1.symm.trans hpath.1)
        exact absurd List.mem_cons_self hh
      | cons d l' =>
        obtain rfl : c = d := Option.some.inj (hforward.1.symm.trans hpath.1)
        obtain ⟨y, hy, hprev⟩ := ih hpath.2.2 hforward.2 fun hmem =>
          hh (List.mem_cons_of_mem _ hmem)
        exact ⟨y, List.mem_cons_of_mem _ hy, hprev⟩
  obtain ⟨y, hy, hprev⟩ := hprefix hring.path hsevered.forward hsevered.fresh.2
  exact hsevered.prev y hy hprev

/-- **An entry put in again** while it is the last one leads to itself. -/
theorem IsRing.addTail_last {k k' : Links ν} {h x : ν} {l : List ν} (hring : IsRing k h (l ++ [x]))
    (hadd : k.addTail x h = some k') : Severed k' h l x ∧ k'.prev x = some x := by
  have hp := hring.prev_head
  rw [List.getLastD_concat] at hp
  rw [Links.addTail, hp] at hadd
  obtain rfl := Option.some.inj hadd
  obtain ⟨hpath, hnodup⟩ := hring
  have hsplit : (h :: l ++ [x]).Nodup := hnodup
  obtain ⟨hhl, -, hdisj⟩ := List.nodup_append.1 hsplit
  have hx : x ∉ h :: l := fun hmem => hdisj x hmem x (List.mem_singleton_self x) rfl
  have hne : h ≠ x := fun heq => hx (heq ▸ List.mem_cons_self)
  have hforward : ∀ {a : ν} {l : List ν}, Path k a (l ++ [x]) h → Forward k a l x := by
    intro a l hpath
    exact (path_append.1 hpath).1.forward
  have hself : ((addStores x x h).foldl Links.put k).prev x = some x := by
    simp [addStores, Links.put]
  have hhead : ((addStores x x h).foldl Links.put k).prev h = some x := by
    simp [addStores, Links.put, hne]
  refine ⟨⟨(hforward hpath).congr fun y hy => ?_, fun y hy heq => ?_, fun y hy heq => ?_, ?_,
    hne.symm, (List.nodup_cons.1 hhl).1⟩, hself⟩
  · have hyx : y ≠ x := fun heq => hx (heq ▸ hy)
    simp [addStores, Links.put, hyx]
  · exact hx (Option.some.inj (hself.symm.trans heq) ▸ hy)
  · exact hx (Option.some.inj (hhead.symm.trans heq) ▸ hy)
  · rw [hhead, Option.isSome_some]

/-- Whatever is put in behind leaves it severed. -/
theorem Severed.addTail {k k' : Links ν} {h x c : ν} {l : List ν} (hsevered : Severed k h l x)
    (hc : c ∉ h :: l) (hadd : k.addTail c h = some k') :
    Severed k' h l x ∧ ∀ y ∈ h :: l, k'.prev c ≠ some y := by
  obtain ⟨p, hp⟩ := Option.isSome_iff_exists.1 hsevered.isSome
  have hph : ∀ y ∈ h :: l, y ≠ p := fun y hy heq => hsevered.head y hy (heq ▸ hp)
  rw [Links.addTail, hp] at hadd
  obtain rfl := Option.some.inj hadd
  have hprev : ∀ y, ((addStores c p h).foldl Links.put k).prev y =
      if y = c then some p else if y = h then some c else k.prev y := fun y => by
    simp only [addStores, List.foldl, Links.put, Function.update_apply]
  have hhc : h ≠ c := fun heq => hc (heq ▸ List.mem_cons_self)
  have hlast : ∀ y ∈ h :: l, ((addStores c p h).foldl Links.put k).prev c ≠ some y := by
    intro y hy heq
    rw [hprev, if_pos rfl] at heq
    exact hph y hy (Option.some.inj heq).symm
  refine ⟨⟨hsevered.forward.congr fun y hy => ?_, fun y hy => ?_, fun y hy heq => ?_, ?_,
    hsevered.fresh⟩, hlast⟩
  · have hyc : y ≠ c := fun heq => hc (heq ▸ hy)
    simp [addStores, Links.put, hyc, hph y hy]
  · by_cases hxc : x = c
    · rw [hxc]
      exact hlast y hy
    · rw [hprev, if_neg hxc, if_neg hsevered.fresh.1]
      exact hsevered.prev y hy
  · rw [hprev, if_neg hhc, if_pos rfl] at heq
    exact hc (Option.some.inj heq ▸ hy)
  · rw [hprev, if_neg hhc, if_pos rfl, Option.isSome_some]

/-- A node cut off stays so when another node, not of the ring, is taken out. -/
theorem Severed.del {k k' : Links ν} {h x c : ν} {l : List ν} (hsevered : Severed k h l x)
    (hc : c ∉ h :: l) (hprevc : ∀ y ∈ h :: l, k.prev c ≠ some y) (hdel : k.del c = some k') :
    Severed k' h l x := by
  simp only [Links.del, Option.bind_eq_bind, Option.bind_eq_some_iff] at hdel
  obtain ⟨p, hp, n, -, hk⟩ := hdel
  obtain rfl := Option.some.inj hk
  have hph : ∀ y ∈ h :: l, y ≠ p := fun y hy heq => hprevc y hy (heq ▸ hp)
  have hhc : h ≠ c := fun heq => hc (heq ▸ List.mem_cons_self)
  have hprev : ∀ y, ((delStores c p n).foldl Links.put k).prev y =
      if y = c then none else if y = n then some p else k.prev y := fun y => by
    simp only [delStores, List.foldl, Links.put, Function.update_apply]
  -- what a `prev` leads to is what it led to before, or `p`
  have hkeep : ∀ z, (∀ y ∈ h :: l, k.prev z ≠ some y) →
      ∀ y ∈ h :: l, ((delStores c p n).foldl Links.put k).prev z ≠ some y := by
    intro z hz y hy heq
    rw [hprev] at heq
    split at heq
    case isTrue => cases heq
    case isFalse =>
      split at heq
      · exact hph y hy (Option.some.inj heq).symm
      · exact hz y hy heq
  refine ⟨hsevered.forward.congr fun y hy => ?_, hkeep x hsevered.prev, hkeep h hsevered.head, ?_,
    hsevered.fresh⟩
  · have hyc : y ≠ c := fun heq => hc (heq ▸ hy)
    simp [delStores, Links.put, hyc, hph y hy]
  · rw [hprev, if_neg hhc]
    split
    · rfl
    · exact hsevered.isSome

end Stores

end Ring
