/-
# Device lists on the parser's stack

The value of `vdevs` in `cp/nucleus/direct.y` is a `struct list_head`, which the
parser copies from one place to another while the devices go on leading to where
it was.  `VdevsEvent` is what the parser does between two of these lists, in any
order that keeps the value of `vdevs` until a production has taken it, and
`devices_ring` says that the list of every user is a ring all the same.
-/

import Hvf.Lib.RingSplice
import Hvf.Lib.StepRun

namespace Hvf

open Ring StepRun

variable {ν : Type*}

/-- The list nodes of a `struct user`, with the devices of its definition in order
of appearance. -/
structure UserNodes (ν : Type*) where
  list : ν
  devices : ν
  vdevs : List ν

/-- `slot` is where the value of `vdevs` is, `seen` the devices that have appeared
since the last definition ended. -/
structure VdevsState (ν : Type*) where
  links : Links ν
  slot : Option ν
  seen : List ν
  users : List (UserNodes ν)

/-- Before the first statement: no list begun, no user. -/
def VdevsState.start (links : Links ν) : VdevsState ν := ⟨links, none, [], []⟩

/-- **A step of the parser on the lists of devices**: a semantic value stored, copied or
reduced, or a user made. -/
inductive VdevsEvent (ν : Type*)
  /-- Another value is stored at `x`. -/
  | scratch (x : ν) (next prev : Option ν)
  /-- The value of `vdevs` is copied to `dst`. -/
  | copy (dst : ν)
  /-- `vdevs : vdev`, where `val` is `$$`. -/
  | vdev (v val : ν)
  /-- `vdevs : vdevs vdev`. -/
  | vdevs (v val : ν)
  /-- `user : USER WORD WORD NLINE props vdevs`, or with a number. -/
  | user (list devices : ν)

section Step

variable [DecidableEq ν]

/-- The lists in `directory_alloc_user`; `src` is the parameter `vdevs`. -/
def allocUserLinks (directory src list devices : ν) (links : Links ν) : Option (Links ν) := do
  let links ← ((links.init list).init devices).splice src devices
  links.addTail list directory

/-- `none` where a pointer is followed that leads nowhere. -/
def vdevsStep (directory : ν) (s : VdevsState ν) : VdevsEvent ν → Option (VdevsState ν)
  | .scratch x next prev =>
    some { s with links := (s.links.put (.next x next)).put (.prev x prev) }
  | .copy dst => do
    let src ← s.slot
    return { s with links := s.links.copy src dst, slot := some dst }
  | .vdev v val => do
    let links ← (s.links.init val).addHead v val
    return { s with links, slot := some val, seen := s.seen ++ [v] }
  | .vdevs v val => do
    let src ← s.slot
    let links ← (s.links.init val).splice src val
    let links ← links.addHead v val
    return { s with links, slot := some val, seen := s.seen ++ [v] }
  | .user list devices => do
    let src ← s.slot
    let links ← allocUserLinks directory src list devices s.links
    return { links, slot := none, seen := [], users := s.users ++ [⟨list, devices, s.seen⟩] }

end Step

/-- The nodes of a user and its devices. -/
def UserNodes.nodes (u : UserNodes ν) : List ν := u.list :: u.devices :: u.vdevs

/-- The nodes that are in a list. -/
def VdevsState.listed (directory : ν) (s : VdevsState ν) : List ν :=
  directory :: (s.users.flatMap UserNodes.nodes ++ s.seen)

/-- Memory that has just been allocated. -/
def FreshNode (stack : Set ν) (directory : ν) (s : VdevsState ν) (x : ν) : Prop :=
  x ∉ stack ∧ x ∉ s.listed directory

/-- What the parser may do: `stack` is its own memory, and it does not overwrite the
value of `vdevs` while that is needed. -/
def Admits (stack : Set ν) (directory : ν) (s : VdevsState ν) : VdevsEvent ν → Prop
  | .scratch x _ _ => x ∈ stack ∧ s.slot ≠ some x
  | .copy dst => dst ∈ stack ∧ s.slot ≠ none
  | .vdev v val => s.slot = none ∧ val ∈ stack ∧ FreshNode stack directory s v
  | .vdevs v val =>
    s.slot ≠ none ∧ s.slot ≠ some val ∧ val ∈ stack ∧ FreshNode stack directory s v
  | .user list devices =>
    s.slot ≠ none ∧ list ≠ devices ∧ FreshNode stack directory s list ∧
      FreshNode stack directory s devices

/-- The parser goes on by one event. -/
def vdevsParse [DecidableEq ν] (stack : Set ν) (directory : ν) :
    VdevsState ν → VdevsEvent ν → VdevsState ν → Prop :=
  guarded (Admits stack directory) fun s e t => vdevsStep directory s e = some t

/-! ### The invariant -/

/-- The list is a ring behind `users`, each user has its devices, and the value of
`vdevs` leads to those that have appeared. -/
structure VdevsInv (stack : Set ν) (directory : ν) (s : VdevsState ν) : Prop where
  directory_ring : IsRing s.links directory (s.users.map UserNodes.list)
  devices_ring : ∀ u ∈ s.users, IsRing s.links u.devices u.vdevs.reverse
  vdevs_ne_nil : ∀ u ∈ s.users, u.vdevs ≠ []
  slot_none : s.slot = none → s.seen = []
  slot_some : ∀ p, s.slot = some p → p ∈ stack ∧ HeadCopy s.links p s.seen.reverse
  nodup : (s.listed directory).Nodup
  notMem_stack : ∀ x ∈ s.listed directory, x ∉ stack

/-- A user made adds its two heads to what is listed. -/
theorem VdevsState.listed_alloc (directory : ν) (s : VdevsState ν) (links : Links ν)
    (list devices : ν) :
    (VdevsState.listed directory ⟨links, none, [], s.users ++ [⟨list, devices, s.seen⟩]⟩).Perm
      (list :: devices :: s.listed directory) := by
  have hfront : (directory :: s.users.flatMap UserNodes.nodes ++ list :: devices :: s.seen).Perm
      (list :: (directory :: s.users.flatMap UserNodes.nodes ++ devices :: s.seen)) :=
    List.perm_middle
  simpa [VdevsState.listed, UserNodes.nodes] using hfront.trans (List.perm_middle.cons list)

namespace VdevsInv

variable {stack : Set ν} {directory : ν} {s : VdevsState ν}

/-- The directory's head is listed. -/
theorem mem_directory : directory ∈ s.listed directory := List.mem_cons_self ..

/-- A device of the list under way is listed. -/
theorem mem_seen {x : ν} (h : x ∈ s.seen) : x ∈ s.listed directory :=
  List.mem_cons_of_mem _ (List.mem_append_right _ h)

/-- The nodes of a user are listed. -/
theorem mem_user {u : UserNodes ν} {x : ν} (hu : u ∈ s.users) (hx : x ∈ u.nodes) :
    x ∈ s.listed directory :=
  List.mem_cons_of_mem _ (List.mem_append_left _ (List.mem_flatMap.2 ⟨u, hu, hx⟩))

/-- The heads of the users are among the users' nodes. -/
theorem mem_nodes_of_mem_lists {x : ν} (hx : x ∈ directory :: s.users.map UserNodes.list) :
    x ∈ directory :: s.users.flatMap UserNodes.nodes := by
  rcases List.mem_cons.1 hx with rfl | hx
  · exact List.mem_cons_self ..
  · obtain ⟨u, hu, rfl⟩ := List.mem_map.1 hx
    exact List.mem_cons_of_mem _ (List.mem_flatMap.2 ⟨u, hu, List.mem_cons_self ..⟩)

/-- So everything of the users is listed. -/
theorem mem_listed {x : ν} (hx : x ∈ directory :: s.users.flatMap UserNodes.nodes) :
    x ∈ s.listed directory :=
  List.mem_append_left s.seen hx

/-- What the lists of the users lead through is not in the definition being read. -/
theorem notMem_seen (h : VdevsInv stack directory s) {x : ν}
    (hx : x ∈ directory :: s.users.flatMap UserNodes.nodes) : x ∉ s.seen := by
  have hnodup : (directory :: s.users.flatMap UserNodes.nodes ++ s.seen).Nodup := h.nodup
  exact fun hseen => (List.nodup_append.1 hnodup).2.2 x hx x hseen rfl

/-- The lists of the users stay where their nodes are left alone. -/
theorem rest (h : VdevsInv stack directory s) {links : Links ν} {slot : Option ν} {seen : List ν}
    (hsame : ∀ x ∈ directory :: s.users.flatMap UserNodes.nodes, SameAt s.links links x)
    (hnone : slot = none → seen = [])
    (hsome : ∀ p, slot = some p → p ∈ stack ∧ HeadCopy links p seen.reverse)
    (hnodup : (directory :: (s.users.flatMap UserNodes.nodes ++ seen)).Nodup)
    (hout : ∀ x ∈ seen, x ∉ stack) : VdevsInv stack directory ⟨links, slot, seen, s.users⟩ where
  directory_ring := h.directory_ring.congr fun x hx => hsame x (mem_nodes_of_mem_lists hx)
  devices_ring u hu := by
    refine (h.devices_ring u hu).congr fun x hx => hsame x ?_
    refine List.mem_cons_of_mem _ (List.mem_flatMap.2 ⟨u, hu, List.mem_cons_of_mem _ ?_⟩)
    simpa using hx
  vdevs_ne_nil := h.vdevs_ne_nil
  slot_none := hnone
  slot_some := hsome
  nodup := hnodup
  notMem_stack x hx := by
    rcases List.mem_cons.1 hx with rfl | hx
    · exact h.notMem_stack x mem_directory
    · rcases List.mem_append.1 hx with hx | hx
      · exact h.notMem_stack x (List.mem_cons_of_mem _ (List.mem_append_left _ hx))
      · exact hout x hx

/-- A device of a user is not the node by which any user is in the directory. -/
theorem notMem_lists (h : VdevsInv stack directory s) {u : UserNodes ν} {x : ν}
    (hu : u ∈ s.users) (hx : x ∈ u.devices :: u.vdevs) :
    x ∉ directory :: s.users.map UserNodes.list := by
  obtain ⟨hdir, hrest⟩ := List.nodup_cons.1 h.nodup
  obtain ⟨hnodes, hpair⟩ := List.nodup_flatMap.1 (List.nodup_append.1 hrest).1
  have hxu : x ∈ u.nodes := List.mem_cons_of_mem _ hx
  intro hmem
  rcases List.mem_cons.1 hmem with rfl | hmem
  · exact hdir (List.mem_append_left _ (List.mem_flatMap.2 ⟨u, hu, hxu⟩))
  · obtain ⟨u', hu', rfl⟩ := List.mem_map.1 hmem
    by_cases heq : u = u'
    · subst heq
      exact (List.nodup_cons.1 (hnodes u hu)).1 hx
    · have : Std.Symm (Function.onFun List.Disjoint (UserNodes.nodes (ν := ν))) :=
        ⟨fun _ _ => List.Disjoint.symm⟩
      exact hpair.forall hu hu' heq hxu (List.mem_cons_self ..)

/-- The links of a user lead to nodes that are in a list. -/
theorem link_mem (h : VdevsInv stack directory s) {x y : ν}
    (hx : x ∈ directory :: s.users.flatMap UserNodes.nodes)
    (hlink : s.links.next x = some y ∨ s.links.prev x = some y) : y ∈ s.listed directory := by
  by_cases hlists : x ∈ directory :: s.users.map UserNodes.list
  · exact mem_listed (mem_nodes_of_mem_lists (h.directory_ring.link_mem hlists hlink))
  · have hne : x ∉ [directory] := fun hmem => hlists (List.mem_append_left _ hmem)
    obtain ⟨u, hu, hxu⟩ := List.mem_flatMap.1 ((List.mem_cons.1 hx).resolve_left fun heq =>
      hne (List.mem_singleton.2 heq))
    have hxd : x ∈ u.devices :: u.vdevs := (List.mem_cons.1 hxu).resolve_left fun heq =>
      hlists (List.mem_cons_of_mem _ (List.mem_map.2 ⟨u, hu, heq.symm⟩))
    have hy := (h.devices_ring u hu).link_mem (by simpa using hxd) hlink
    exact mem_user hu (List.mem_cons_of_mem _ (by simpa using hy))

variable [DecidableEq ν]

/-- What is stored in the parser's own memory, apart from the value of `vdevs`, does
not matter. -/
theorem scratch (h : VdevsInv stack directory s) {x : ν} {next prev : Option ν} (hx : x ∈ stack)
    (hslot : s.slot ≠ some x) :
    VdevsInv stack directory
      { s with links := (s.links.put (.next x next)).put (.prev x prev) } := by
  have hsame : ∀ y ≠ x, SameAt s.links ((s.links.put (.next x next)).put (.prev x prev)) y :=
    fun y hy => ⟨Function.update_of_ne hy .., Function.update_of_ne hy ..⟩
  have hlisted : ∀ y ∈ s.listed directory, y ≠ x :=
    fun y hy heq => h.notMem_stack y hy (heq ▸ hx)
  refine h.rest (fun y hy => hsame y (hlisted y ?_)) h.slot_none (fun p hp => ?_) h.nodup
    fun y hy => h.notMem_stack y (mem_seen hy)
  · exact mem_listed hy
  · obtain ⟨hstack, hcopy⟩ := h.slot_some p hp
    have hpx : p ≠ x := fun heq => hslot (heq ▸ hp)
    refine ⟨hstack, hcopy.congr (hsame p hpx).1 (hsame p hpx).2 fun y hy => hsame y ?_⟩
    exact hlisted y (mem_seen (List.mem_reverse.1 hy))

/-- **The value is copied** and the devices lead to where it was. -/
theorem copy (h : VdevsInv stack directory s) {src dst : ν} (hslot : s.slot = some src)
    (hdst : dst ∈ stack) :
    VdevsInv stack directory { s with links := s.links.copy src dst, slot := some dst } := by
  have hlisted : ∀ y ∈ s.listed directory, y ≠ dst :=
    fun y hy heq => h.notMem_stack y hy (heq ▸ hdst)
  refine h.rest (fun y hy => copy_of_ne s.links src (hlisted y ?_)) nofun (fun p hp => ?_) h.nodup
    fun y hy => h.notMem_stack y (mem_seen hy)
  · exact mem_listed hy
  · obtain rfl := Option.some.inj hp
    refine ⟨hdst, (h.slot_some src hslot).2.copy fun hmem => ?_⟩
    exact hlisted dst (mem_seen (List.mem_reverse.1 hmem)) rfl

/-- **One more device** goes in front of the list that `$$` is the head of. -/
theorem appear (h : VdevsInv stack directory s) {links : Links ν} {v val : ν} (hval : val ∈ stack)
    (hv : FreshNode stack directory s v) (hring : IsRing links val s.seen.reverse)
    (hsame : ∀ y ∉ val :: s.seen.reverse, SameAt s.links links y) :
    ∃ links', links.addHead v val = some links' ∧
      VdevsInv stack directory ⟨links', some val, s.seen ++ [v], s.users⟩ := by
  have hvx : v ∉ val :: s.seen.reverse := by
    intro hmem
    rcases List.mem_cons.1 hmem with rfl | hmem
    · exact hv.1 hval
    · exact hv.2 (mem_seen (List.mem_reverse.1 hmem))
  obtain ⟨links', hadd, hring', hsame'⟩ := hring.addHead hvx
  refine ⟨links', hadd, h.rest (fun y hy => ?_) nofun (fun p hp => ?_) ?_ fun y hy => ?_⟩
  · have hlisted : y ∈ s.listed directory := mem_listed hy
    have hyval : y ≠ val := fun heq => h.notMem_stack y hlisted (heq ▸ hval)
    have hyv : y ≠ v := fun heq => hv.2 (heq ▸ hlisted)
    have hyseen : y ∉ s.seen.reverse := fun hmem => h.notMem_seen hy (List.mem_reverse.1 hmem)
    have hout : y ∉ val :: s.seen.reverse := List.not_mem_cons_of_ne_of_not_mem hyval hyseen
    have hout' : y ∉ val :: v :: s.seen.reverse :=
      List.not_mem_cons_of_ne_of_not_mem hyval (List.not_mem_cons_of_ne_of_not_mem hyv hyseen)
    exact (hsame y hout).trans (hsame' y hout')
  · obtain rfl := Option.some.inj hp
    rw [List.reverse_append]
    exact ⟨hval, hring'.headCopy (List.cons_ne_nil _ _)⟩
  · have hnodup : (s.listed directory ++ [v]).Nodup :=
      List.nodup_append_comm.1 (List.nodup_cons.2 ⟨hv.2, h.nodup⟩)
    rwa [VdevsState.listed, List.cons_append, List.append_assoc] at hnodup
  · rcases List.mem_append.1 hy with hy | hy
    · exact h.notMem_stack y (mem_seen hy)
    · exact List.mem_singleton.1 hy ▸ hv.1

/-- **The devices so far** come behind the new `$$`. -/
theorem spliceSeen (h : VdevsInv stack directory s) {src val : ν} (hslot : s.slot = some src)
    (hne : src ≠ val) (hval : val ∈ stack) :
    ∃ links, (s.links.init val).splice src val = some links ∧
      IsRing links val s.seen.reverse ∧ ∀ y ∉ val :: s.seen.reverse, SameAt s.links links y := by
  obtain ⟨hsrc, hcopy⟩ := h.slot_some src hslot
  have hseen : ∀ x ∈ s.seen.reverse, x ∉ stack :=
    fun x hx => h.notMem_stack x (mem_seen (List.mem_reverse.1 hx))
  have hinit : ∀ y ≠ val, SameAt s.links (s.links.init val) y := fun y hy => init_of_ne s.links hy
  have hcopy₁ := hcopy.congr (hinit src hne).1 (hinit src hne).2 fun x hx =>
    hinit x fun heq => hseen x hx (heq ▸ hval)
  have hnodup : (val :: (s.seen.reverse ++ [])).Nodup := by
    rw [List.append_nil]
    exact List.nodup_cons.2 ⟨fun hmem => hseen val hmem hval, hcopy.nodup⟩
  obtain ⟨links, hsplice, hring, hsame⟩ :=
    hcopy₁.splice (init_isRing s.links val) (fun hmem => hseen src hmem hsrc) hnodup
  rw [List.append_nil] at hring hsame
  exact ⟨links, hsplice, hring, fun y hy =>
    (hinit y (List.ne_of_not_mem_cons hy)).trans (hsame y hy)⟩

/-- **`directory_alloc_user`** takes the devices over, wherever the head was copied
from. -/
theorem allocUser (h : VdevsInv stack directory s) {src list devices : ν}
    (hslot : s.slot = some src) (hne : list ≠ devices) (hlist : FreshNode stack directory s list)
    (hdevices : FreshNode stack directory s devices) :
    ∃ links', allocUserLinks directory src list devices s.links = some links' ∧
      VdevsInv stack directory ⟨links', none, [], s.users ++ [⟨list, devices, s.seen⟩]⟩ := by
  obtain ⟨hsrc, hcopy⟩ := h.slot_some src hslot
  have hseen : ∀ {x}, x ∈ s.seen.reverse → x ∈ s.listed directory :=
    fun hx => mem_seen (List.mem_reverse.1 hx)
  -- the two heads are empty lists and nothing else has changed
  have hsame₁ : ∀ y, y ≠ list → y ≠ devices →
      SameAt s.links ((s.links.init list).init devices) y :=
    fun y hl hd => (init_of_ne _ hl).trans (init_of_ne _ hd)
  have hlisted₁ : ∀ y ∈ s.listed directory,
      SameAt s.links ((s.links.init list).init devices) y := fun y hy =>
    hsame₁ y (fun heq => hlist.2 (heq ▸ hy)) fun heq => hdevices.2 (heq ▸ hy)
  have hsrc₁ := hsame₁ src (fun heq => hlist.1 (heq ▸ hsrc)) fun heq => hdevices.1 (heq ▸ hsrc)
  have hcopy₁ := hcopy.congr hsrc₁.1 hsrc₁.2 fun x hx => hlisted₁ x (hseen hx)
  have hsrc_notMem : src ∉ s.seen.reverse := fun hmem => h.notMem_stack src (hseen hmem) hsrc
  have hnodup : (devices :: (s.seen.reverse ++ [])).Nodup := by
    rw [List.append_nil]
    exact List.nodup_cons.2 ⟨fun hmem => hdevices.2 (hseen hmem), hcopy.nodup⟩
  obtain ⟨links₂, hsplice, hring₂, hsame₂⟩ :=
    hcopy₁.splice (init_isRing (s.links.init list) devices) hsrc_notMem hnodup
  rw [List.append_nil] at hring₂ hsame₂
  -- the lists of the users have not been touched
  have hkeep : ∀ y ∈ directory :: s.users.flatMap UserNodes.nodes, SameAt s.links links₂ y := by
    intro y hy
    have hylisted : y ∈ s.listed directory := mem_listed hy
    refine (hlisted₁ y hylisted).trans (hsame₂ y ?_)
    exact List.not_mem_cons_of_ne_of_not_mem (fun heq => hdevices.2 (heq ▸ hylisted))
      fun hmem => h.notMem_seen hy (List.mem_reverse.1 hmem)
  have hnodup₂ : (directory :: (s.users.flatMap UserNodes.nodes ++ [])).Nodup := by
    rw [List.append_nil]
    exact (List.nodup_append.1 (show (directory :: s.users.flatMap UserNodes.nodes ++ s.seen).Nodup
      from h.nodup)).1
  have h₂ : VdevsInv stack directory ⟨links₂, none, [], s.users⟩ :=
    h.rest hkeep (fun _ => rfl) nofun hnodup₂ nofun
  have hmap : ∀ y ∈ directory :: s.users.map UserNodes.list, y ∈ s.listed directory :=
    fun y hy => mem_listed (mem_nodes_of_mem_lists hy)
  obtain ⟨links₃, hadd, hring₃⟩ :=
    h₂.directory_ring.addTail (x := list) fun hmem => hlist.2 (hmap list hmem)
  have hsame₃ : ∀ y ≠ list, y ∉ directory :: s.users.map UserNodes.list →
      SameAt links₂ links₃ y := by
    intro y hy hmem
    rw [List.mem_cons, not_or] at hmem
    exact h₂.directory_ring.addTail_of_notMem hadd y (List.not_mem_cons_of_ne_of_not_mem hmem.1
      (List.not_mem_cons_of_ne_of_not_mem hy hmem.2))
  refine ⟨links₃, ?_, ?_, fun u hu => ?_, fun u hu => ?_, fun _ => rfl, nofun, ?_, fun x hx => ?_⟩
  · rw [allocUserLinks, hsplice]
    exact hadd
  · rw [List.map_append]
    exact hring₃
  · rcases List.mem_append.1 hu with hu | hu
    · refine (h₂.devices_ring u hu).congr fun x hx => hsame₃ x ?_ ?_
      · have hx' : x ∈ u.nodes := List.mem_cons_of_mem _ (by simpa using hx)
        exact fun heq => hlist.2 (heq ▸ mem_user hu hx')
      · exact h.notMem_lists hu (by simpa using hx)
    · obtain rfl := List.mem_singleton.1 hu
      refine hring₂.congr fun x hx => ?_
      rcases List.mem_cons.1 hx with rfl | hx
      · exact hsame₃ x hne.symm fun hmem => hdevices.2 (hmap x hmem)
      · refine hsame₃ x (fun heq => hlist.2 (heq ▸ hseen hx)) fun hmem => ?_
        exact h.notMem_seen (mem_nodes_of_mem_lists hmem) (List.mem_reverse.1 hx)
  · rcases List.mem_append.1 hu with hu | hu
    · exact h.vdevs_ne_nil u hu
    · obtain rfl := List.mem_singleton.1 hu
      exact fun hnil => hcopy.nonempty (List.reverse_eq_nil_iff.2 hnil)
  · refine (s.listed_alloc directory links₃ list devices).nodup_iff.2 ?_
    exact List.nodup_cons.2 ⟨List.not_mem_cons_of_ne_of_not_mem hne hlist.2,
      List.nodup_cons.2 ⟨hdevices.2, h.nodup⟩⟩
  · have hx' := (s.listed_alloc directory links₃ list devices).mem_iff.1 hx
    rcases List.mem_cons.1 hx' with rfl | hx'
    · exact hlist.1
    · rcases List.mem_cons.1 hx' with rfl | hx'
      · exact hdevices.1
      · exact h.notMem_stack x hx'

end VdevsInv

/-! ### Runs -/

variable {stack : Set ν} {directory : ν}

/-- Before the first statement the rings are empty. -/
theorem start_inv {links : Links ν} (hring : IsRing links directory [])
    (hout : directory ∉ stack) : VdevsInv stack directory (.start links) where
  directory_ring := hring
  devices_ring := nofun
  vdevs_ne_nil := nofun
  slot_none _ := rfl
  slot_some := nofun
  nodup := List.nodup_singleton directory
  notMem_stack _ hx := List.mem_singleton.1 hx ▸ hout

variable [DecidableEq ν]

/-- **One event** never follows a bad pointer. -/
theorem VdevsInv.step {s : VdevsState ν} (h : VdevsInv stack directory s) {e : VdevsEvent ν}
    (hadmits : Admits stack directory s e) :
    ∃ t, vdevsStep directory s e = some t ∧ VdevsInv stack directory t := by
  cases e with
  | scratch x next prev => exact ⟨_, rfl, h.scratch hadmits.1 hadmits.2⟩
  | copy dst =>
    obtain ⟨hdst, hslot⟩ := hadmits
    obtain ⟨src, hsrc⟩ := Option.ne_none_iff_exists'.1 hslot
    refine ⟨_, ?_, h.copy hsrc hdst⟩
    simp only [vdevsStep, hsrc, Option.bind_eq_bind, Option.bind_some]
    rfl
  | vdev v val =>
    obtain ⟨hslot, hval, hv⟩ := hadmits
    have hring : IsRing (s.links.init val) val s.seen.reverse := by
      rw [h.slot_none hslot]
      exact init_isRing s.links val
    obtain ⟨links, hadd, hinv⟩ := h.appear hval hv hring fun y hy =>
      init_of_ne s.links (List.ne_of_not_mem_cons hy)
    refine ⟨_, ?_, hinv⟩
    simp only [vdevsStep, hadd, Option.bind_eq_bind, Option.bind_some]
    rfl
  | vdevs v val =>
    obtain ⟨hslot, hne, hval, hv⟩ := hadmits
    obtain ⟨src, hsrc⟩ := Option.ne_none_iff_exists'.1 hslot
    obtain ⟨links, hsplice, hring, hsame⟩ := h.spliceSeen hsrc
      (fun heq => hne (hsrc.trans (congrArg some heq))) hval
    obtain ⟨links', hadd, hinv⟩ := h.appear hval hv hring hsame
    refine ⟨_, ?_, hinv⟩
    simp only [vdevsStep, hsrc, hsplice, hadd, Option.bind_eq_bind, Option.bind_some]
    rfl
  | user list devices =>
    obtain ⟨hslot, hne, hlist, hdevices⟩ := hadmits
    obtain ⟨src, hsrc⟩ := Option.ne_none_iff_exists'.1 hslot
    obtain ⟨links, halloc, hinv⟩ := h.allocUser hsrc hne hlist hdevices
    refine ⟨_, ?_, hinv⟩
    simp only [vdevsStep, hsrc, halloc, Option.bind_eq_bind, Option.bind_some]
    rfl

/-- The rings are right in every state of the parse. -/
theorem VdevsInv.run {links : Links ν} (hring : IsRing links directory [])
    (hout : directory ∉ stack) {es : List (VdevsEvent ν)} {s : VdevsState ν}
    (hrun : Run (vdevsParse stack directory) (.start links) es s) : VdevsInv stack directory s := by
  refine hrun.invariant (start_inv hring hout) fun t e u ht hstep => ?_
  obtain ⟨u', hu', hinv⟩ := ht.step hstep.1
  exact Option.some.inj (hu'.symm.trans hstep.2) ▸ hinv

/-- **Device lists survive the parser's stack.**  However the parser copies the value
of `vdevs` about, no bad pointer is followed, the list of every user is a ring through
the devices of its definition, the last one first, and no link of a user, a device or
the directory leads into the parser's memory. -/
theorem devices_ring {links : Links ν} (hring : IsRing links directory [])
    (hout : directory ∉ stack) {es : List (VdevsEvent ν)} {s : VdevsState ν}
    (hrun : Run (vdevsParse stack directory) (.start links) es s) :
    (∀ e, Admits stack directory s e → (vdevsStep directory s e).isSome) ∧
      (∀ u ∈ s.users, u.vdevs ≠ [] ∧ IsRing s.links u.devices u.vdevs.reverse) ∧
      ∀ x ∈ directory :: s.users.flatMap UserNodes.nodes, ∀ y,
        s.links.next x = some y ∨ s.links.prev x = some y → y ∉ stack := by
  have h := VdevsInv.run hring hout hrun
  refine ⟨fun e he => ?_, fun u hu => ⟨h.vdevs_ne_nil u hu, h.devices_ring u hu⟩,
    fun x hx y hlink => h.notMem_stack y ?_⟩
  · obtain ⟨t, ht, -⟩ := h.step he
    rw [ht, Option.isSome_some]
  · exact h.link_mem hx hlink

/-- Two devices: `$$` is at 0, and the value goes to 1 and, while the stack grows, to 2; the
list is right at the end. -/
theorem devices_ring_two :
    ∃ s, Run (vdevsParse {x | x < 3} 3) (.start ⟨some, some⟩)
        [.vdev 10 0, .copy 1, .scratch 0 none none, .vdevs 11 0, .copy 1, .copy 2,
          .scratch 1 none none, .user 20 21] s ∧
      s.users.map UserNodes.vdevs = [[10, 11]] ∧
      ∀ u ∈ s.users, u.vdevs ≠ [] ∧ IsRing s.links u.devices u.vdevs.reverse := by
  have hrun : Run (vdevsParse {x | x < 3} 3) (.start ⟨some, some⟩) [] _ := Run.nil
  have hrun := hrun.event (.vdev 10 0) ⟨rfl, by decide, by decide, by decide⟩ rfl
  have hrun := hrun.event (.copy 1) ⟨by decide, nofun⟩ rfl
  have hrun := hrun.event (.scratch 0 none none) ⟨by decide, by decide⟩ rfl
  have hrun := hrun.event (.vdevs 11 0) ⟨nofun, by decide, by decide, by decide, by decide⟩ rfl
  have hrun := hrun.event (.copy 1) ⟨by decide, nofun⟩ rfl
  have hrun := hrun.event (.copy 2) ⟨by decide, nofun⟩ rfl
  have hrun := hrun.event (.scratch 1 none none) ⟨by decide, by decide⟩ rfl
  have hrun := hrun.event (.user 20 21)
    ⟨nofun, by decide, ⟨by decide, by decide⟩, by decide, by decide⟩ rfl
  exact ⟨_, hrun, rfl, (devices_ring ⟨⟨rfl, rfl⟩, by decide⟩ (by decide) hrun).2.1⟩

end Hvf
