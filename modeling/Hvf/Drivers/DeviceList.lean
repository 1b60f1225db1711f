/-
# The list of devices after the scan

The scan leaves a well-formed list of devices exactly when every structure it uses
came out of `malloc` with the fields zero that nobody sets, and every enabled device
could be asked what it is.  A structure that stays on the list when its device cannot
be asked is put on it a second time with the next subchannel, or freed.
-/

import Hvf.Drivers.DeviceScan

namespace Hvf

open Ring

/-! ### What the scan ought to leave -/

/-- The enabled subchannels among `schs`. -/
def ScanEnv.attached (env : ScanEnv) (schs : List (BitVec 32)) : List (BitVec 32) :=
  schs.filter fun sch => env.Attached sch

/-- **A device set up for its subchannel.** It is identified as what the device answers, and
the fields of its queue have the values that an I/O operation needs. -/
structure ScanDev.SetFor (env : ScanEnv) (sch : BitVec 32) (d : ScanDev) : Prop where
  identified : d.Identified env sch
  queue : d.QueueSet
  qOut : d.qOut = true

/-- The list `devices` is well formed; the allocations on it are those that are not
freed; they are the devices of different enabled subchannels. -/
def DevicesOk (env : ScanEnv) (schs : List (BitVec 32)) (s : ScanState) : Prop :=
  ∃ l : List ℕ, IsRing s.links .devices (l.map .dev) ∧ (∀ a, a ∈ l ↔ s.live a = true) ∧
    (l.map fun a => (s.mem a).sch).Nodup ∧
    ∀ a ∈ l, ∃ sch ∈ env.attached schs, (s.mem a).SetFor env sch

/-- `scan_devices` comes to its end and leaves such a list. -/
def ScanGood (env : ScanEnv) : Prop :=
  ∃ types s, scanDevices env = .ok (types, s) ∧ DevicesOk env schids s

/-- The memory of the structure for the subchannel `sch`, allocation `j`, is zero where
nobody sets it, and the device answers. -/
structure ScanEnv.CleanAt (env : ScanEnv) (j : ℕ) (sch : BitVec 32) : Prop where
  type_eq : (env.garbage j).type = 0
  model_eq : (env.garbage j).model = 0
  queue : (env.garbage j).QueueSet
  identified : ∃ id, env.identify sch = .ok id

/-- Every subchannel attached to a device answers in a way that leaves the scan's structure of
its own on the list. -/
def ScanEnv.CleanFor (env : ScanEnv) (schs : List (BitVec 32)) : Prop :=
  ∀ j sch, (env.attached schs)[j]? = some sch → env.CleanAt j sch

variable {env : ScanEnv} {schs : List (BitVec 32)} {sch : BitVec 32} {s s' : ScanState}

/-- A subchannel with a device behind it is one more attached subchannel. -/
theorem attached_append (h : env.Attached sch) :
    env.attached (schs ++ [sch]) = env.attached schs ++ [sch] := by
  rw [ScanEnv.attached, List.filter_append, List.filter_singleton, decide_eq_true h]
  rfl

/-- A subchannel without a device changes nothing of the attached ones. -/
theorem attached_append_not (h : ¬ env.Attached sch) :
    env.attached (schs ++ [sch]) = env.attached schs := by
  rw [ScanEnv.attached, List.filter_append, List.filter_singleton, decide_eq_false h]
  exact List.append_nil _

/-- What stands in a list with one more element behind it is an element of the list or the new
one. -/
theorem getElem?_snoc {α : Type*} {l : List α} {x y : α} {j : ℕ} :
    (l ++ [x])[j]? = some y ↔ l[j]? = some y ∨ j = l.length ∧ y = x := by
  rcases lt_or_ge j l.length with hlt | hge
  · rw [List.getElem?_append_left hlt]
    exact ⟨Or.inl, fun h => h.elim id fun h => absurd h.1 hlt.ne⟩
  · rw [List.getElem?_append_right hge, List.getElem?_eq_none hge, List.getElem?_singleton]
    split
    case isTrue hzero =>
      have hj : j = l.length := by omega
      simp [hj, eq_comm]
    case isFalse hzero =>
      have hj : j ≠ l.length := by omega
      simp [hj]

/-- A clean scan of one subchannel more is a clean scan so far and a clean answer of the new
one. -/
theorem cleanFor_append (h : env.Attached sch) : env.CleanFor (schs ++ [sch]) ↔
    env.CleanFor schs ∧ env.CleanAt (env.attached schs).length sch := by
  rw [ScanEnv.CleanFor, attached_append h]
  constructor
  · intro hclean
    exact ⟨fun j sch' hj => hclean j sch' (getElem?_snoc.2 (Or.inl hj)),
      hclean _ _ (getElem?_snoc.2 (Or.inr ⟨rfl, rfl⟩))⟩
  · rintro ⟨hclean, hlast⟩ j sch' hj
    rcases getElem?_snoc.1 hj with hj | ⟨rfl, rfl⟩
    · exact hclean j sch' hj
    · exact hlast

/-! ### As long as nothing went wrong -/

/-- **A sound scan.** After the subchannels `att` their devices are on the list in this
order, each set up for its own, their structures are live, and the structure in hand, if
there is one, is on no list. -/
structure ScanSound (env : ScanEnv) (att : List (BitVec 32)) (s : ScanState) : Prop where
  ring : IsRing s.links .devices ((List.range att.length).map .dev)
  setFor : ∀ j sch, att[j]? = some sch → (s.mem j).SetFor env sch
  live : ∀ a, s.live a = true ↔ a < s.count
  dev : s.dev = none ∧ s.count = att.length ∨
    s.dev = some att.length ∧ s.count = att.length + 1 ∧
      (s.mem att.length).type = (env.garbage att.length).type ∧
      (s.mem att.length).model = (env.garbage att.length).model ∧
      ((s.mem att.length).QueueSet ↔ (env.garbage att.length).QueueSet) ∧
      (s.mem att.length).qOut = true

/-- **The allocation of a sound scan.** The structure taken next is the one numbered as the
devices so far, and the state stays sound. -/
theorem ScanSound.alloc {att : List (BitVec 32)} (hsound : ScanSound env att s) :
    ∃ s₁, scanAlloc env s = (att.length, s₁) ∧ s₁.dev = some att.length ∧
      ScanSound env att s₁ := by
  rcases hsound.dev with ⟨hdev, hcount⟩ | ⟨hdev, hrest⟩
  · rw [scanAlloc, hdev, hcount]
    refine ⟨_, rfl, rfl, hsound.ring, fun j sch hj => ?_, fun a => ?_, Or.inr ⟨rfl, rfl, ?_⟩⟩
    · have hne : j ≠ att.length := (List.getElem?_eq_some_iff.1 hj).1.ne
      simpa only [Function.update_of_ne hne] using hsound.setFor j sch hj
    · by_cases ha : a = att.length
      · simp [ha]
      · simp only [Function.update_of_ne ha, hsound.live a, hcount]
        omega
    · simp [ScanDev.QueueSet]
  · rw [scanAlloc, hdev]
    exact ⟨s, rfl, hdev, hsound⟩

/-- The nodes of the first devices, with the next one behind them. -/
theorem range_map_dev (n : ℕ) :
    (List.range (n + 1)).map DevNode.dev = (List.range n).map .dev ++ [.dev n] := by
  rw [List.range_succ, List.map_append, List.map_singleton]

/-- A device's node is on the chain exactly when its address is; the head of the list is no
device. -/
theorem dev_notMem {l : List ℕ} {a : ℕ} :
    DevNode.dev a ∉ DevNode.devices :: l.map .dev ↔ a ∉ l := by
  simp

/-- **One more subchannel, and all is well.** -/
theorem ScanSound.step (hsound : ScanSound env (env.attached schs) s)
    (hclean : env.CleanFor (schs ++ [sch])) : ∃ s', scanSch env scanTypes s sch = .ok s' ∧
      ScanSound env (env.attached (schs ++ [sch])) s' := by
  obtain ⟨s₁, halloc, hdev, hsound₁⟩ := hsound.alloc
  set n := (env.attached schs).length
  rcases hsound₁.dev with ⟨hnone, -⟩ | ⟨-, hcount, htype, hmodel, hqueue, hqOut⟩
  · rw [hdev] at hnone
    cases hnone
  have hn : DevNode.dev n ∉ DevNode.devices :: (List.range n).map .dev :=
    dev_notMem.2 fun hmem => (List.mem_range.1 hmem).false
  obtain ⟨k, hk, hring⟩ := hsound₁.ring.addTail hn
  obtain ⟨k₁, hk₁, hring₁⟩ := hring.del_last
  obtain ⟨k₂, hk₂, hring₂⟩ := hring₁.addTail hn
  obtain ⟨s', hs'⟩ := scanSch_isOk halloc fun hatt => by
    have hat := ((cleanFor_append hatt).1 hclean).2
    exact ⟨htype.trans hat.type_eq, hmodel.trans hat.model_eq, hqueue.2 hat.queue,
      k, k₁, k₂, hk, hk₁, hk₂⟩
  refine ⟨s', hs', ?_⟩
  rcases scanSch_cases hs' with ⟨hatt, rfl | rfl⟩ | ⟨hatt, a, s₂, k', d, halloc', -, -, hk', h⟩
  · rwa [attached_append_not hatt]
  · rwa [attached_append_not hatt, halloc]
  · have hat := ((cleanFor_append hatt).1 hclean).2
    obtain ⟨rfl, rfl⟩ := Prod.mk.inj (halloc.symm.trans halloc')
    obtain rfl := Option.some.inj (hk.symm.trans hk')
    rcases h with ⟨e, he, -⟩ | ⟨k₁', k₂', hk₁', hk₂', hident, hset, hq, rfl⟩
    · obtain ⟨id, hid⟩ := hat.identified
      rw [hid] at he
      cases he
    · obtain rfl := Option.some.inj (hk₁.symm.trans hk₁')
      obtain rfl := Option.some.inj (hk₂.symm.trans hk₂')
      rw [attached_append hatt]
      refine ⟨?_, fun j sch' hj => ?_, hsound₁.live, Or.inl ⟨rfl, ?_⟩⟩
      · rw [List.length_append, List.length_singleton, range_map_dev]
        exact hring₂
      · rcases getElem?_snoc.1 hj with hj | ⟨rfl, rfl⟩
        · rw [ScanState.relink_mem, ScanState.set_mem_of_ne _ _
            (List.getElem?_eq_some_iff.1 hj).1.ne]
          exact hsound₁.setFor j sch' hj
        · rw [ScanState.relink_mem, ScanState.set_mem_self]
          exact ⟨hident, hset.2 (hqueue.2 hat.queue), hq.trans hqOut⟩
      · rw [List.length_append, List.length_singleton]
        exact hcount

/-! ### As soon as something went wrong -/

/-- The list cannot be what it ought to be any more: a device on it has a queue that
nobody set, or it holds a structure that will be used again or freed, or its links are
broken. -/
inductive ScanBad (s : ScanState) : Prop
  | tainted (l : List ℕ) (a : ℕ) (ring : IsRing s.links .devices (l.map .dev)) (mem : a ∈ l)
      (queue : ¬ (s.mem a).QueueSet) (bound : ∀ b, b ∈ l ∨ s.dev = some b → b < s.count)
      (dev : ∀ b, s.dev = some b → b ∉ l)
  | kept (l : List ℕ) (a : ℕ) (ring : IsRing s.links .devices ((l ++ [a]).map .dev))
      (dev : s.dev = some a) (bound : ∀ b, b ∈ l ∨ s.dev = some b → b < s.count)
  | severed (l : List ℕ) (a : ℕ) (links : Severed s.links .devices (l.map .dev) (.dev a))
      (bound : ∀ b, b ∈ l ∨ s.dev = some b → b < s.count) (dev : ∀ b, s.dev = some b → b ∉ l)

/-- Once a scan has gone wrong, an allocation leaves it so. -/
theorem ScanBad.alloc (h : ScanBad s) (env : ScanEnv) : ∃ a s₁, scanAlloc env s = (a, s₁) ∧
    s₁.dev = some a ∧ ScanBad s₁ := by
  have hgrow : ∀ {l : List ℕ}, (∀ b, b ∈ l ∨ s.dev = some b → b < s.count) →
      ∀ b, b ∈ l ∨ some s.count = some b → b < s.count + 1 := by
    rintro l hbound b (hb | hb)
    · exact (hbound b (Or.inl hb)).trans (Nat.lt_succ_self _)
    · obtain rfl := Option.some.inj hb
      exact Nat.lt_succ_self _
  have hfresh : ∀ {l : List ℕ}, (∀ b, b ∈ l ∨ s.dev = some b → b < s.count) →
      ∀ b, some s.count = some b → b ∉ l := by
    intro l hbound b hb hmem
    obtain rfl := Option.some.inj hb
    exact (hbound _ (Or.inl hmem)).false
  rcases hdev : s.dev with _ | a
  · refine ⟨s.count, _, by rw [scanAlloc, hdev], rfl, ?_⟩
    cases h with
    | tainted l a ring mem queue bound dev =>
      refine .tainted l a ring mem ?_ (hgrow bound) (hfresh bound)
      simpa only [Function.update_of_ne (bound a (Or.inl mem)).ne] using queue
    | kept l a ring dev bound =>
      rw [hdev] at dev
      cases dev
    | severed l a links bound dev => exact .severed l a links (hgrow bound) (hfresh bound)
  · exact ⟨a, s, by rw [scanAlloc, hdev], hdev, h⟩

/-- **Nothing repairs it.** -/
theorem ScanBad.step (h : ScanBad s) (hs' : scanSch env scanTypes s sch = .ok s') :
    ScanBad s' := by
  obtain ⟨a, s₁, halloc, hdev, h₁⟩ := h.alloc env
  rcases scanSch_cases hs' with ⟨-, rfl | rfl⟩ | ⟨-, a', s₂, k, d, halloc', -, -, hk, hcase⟩
  · exact h
  · rwa [halloc]
  · obtain ⟨rfl, rfl⟩ := Prod.mk.inj (halloc.symm.trans halloc')
    cases h₁ with
    | tainted l b ring mem queue bound dev =>
      have hal : a ∉ l := dev a hdev
      obtain ⟨k', hk', hring⟩ := ring.addTail (dev_notMem.2 hal)
      obtain rfl := Option.some.inj (hk.symm.trans hk')
      rcases hcase with ⟨e, -, rfl⟩ | ⟨k₁, k₂, hk₁, hk₂, -, -, -, rfl⟩
      · refine .kept l a ?_ hdev bound
        rw [List.map_append, List.map_singleton]
        exact hring
      · obtain ⟨k₁', hk₁', hring₁⟩ := hring.del_last
        obtain rfl := Option.some.inj (hk₁.symm.trans hk₁')
        obtain ⟨k₂', hk₂', hring₂⟩ := hring₁.addTail (dev_notMem.2 hal)
        obtain rfl := Option.some.inj (hk₂.symm.trans hk₂')
        refine .tainted (l ++ [a]) b ?_ (List.mem_append_left _ mem) ?_ ?_ fun _ h => (nomatch h)
        · rw [List.map_append, List.map_singleton]
          exact hring₂
        · have hne : b ≠ a := fun heq => hal (heq ▸ mem)
          rw [ScanState.relink_mem, ScanState.set_mem_of_ne _ _ hne]
          exact queue
        · rintro c (hc | hc)
          · rcases List.mem_append.1 hc with hc | hc
            · exact bound c (Or.inl hc)
            · obtain rfl := List.mem_singleton.1 hc
              exact bound c (Or.inr hdev)
          · cases hc
    | kept l b ring dev bound =>
      obtain rfl := Option.some.inj (hdev.symm.trans dev)
      rw [List.map_append, List.map_singleton] at ring
      have hal : a ∉ l := by
        have hnodup := (List.nodup_cons.1 ring.nodup).2
        intro hmem
        exact (List.nodup_append.1 hnodup).2.2 _ (List.mem_map_of_mem hmem) _
          (List.mem_singleton_self _) rfl
      have hal' := dev_notMem.2 hal
      obtain ⟨hsevered, hprev⟩ := ring.addTail_last hk
      rcases hcase with ⟨e, -, rfl⟩ | ⟨k₁, k₂, hk₁, hk₂, -, -, -, rfl⟩
      · refine .severed l a hsevered bound fun b hb => ?_
        obtain rfl := Option.some.inj (hdev.symm.trans hb)
        exact hal
      · exact .severed l a ((hsevered.del hal' hsevered.prev hk₁).addTail hal' hk₂).1
          (fun b hb => bound b (hb.imp id fun h => (nomatch h))) fun _ h => (nomatch h)
    | severed l x links bound dev =>
      have hal' := dev_notMem.2 (dev a hdev)
      obtain ⟨hsevered, hprev⟩ := links.addTail hal' hk
      rcases hcase with ⟨e, -, rfl⟩ | ⟨k₁, k₂, hk₁, hk₂, -, -, -, rfl⟩
      · exact .severed l x hsevered bound dev
      · exact .severed l x ((hsevered.del hal' hprev hk₁).addTail hal' hk₂).1
          (fun b hb => bound b (hb.imp id fun h => (nomatch h))) fun _ h => (nomatch h)

/-- **The first subchannel that goes wrong.** -/
theorem ScanSound.bad (hsound : ScanSound env (env.attached schs) s) (hatt : env.Attached sch)
    (hclean : ¬ env.CleanAt (env.attached schs).length sch)
    (hs' : scanSch env scanTypes s sch = .ok s') : ScanBad s' := by
  obtain ⟨s₁, halloc, hdev, hsound₁⟩ := hsound.alloc
  set n := (env.attached schs).length
  rcases hsound₁.dev with ⟨hnone, -⟩ | ⟨-, hcount, htype, hmodel, hqueue, -⟩
  · rw [hdev] at hnone
    cases hnone
  have hn : n ∉ List.range n := fun hmem => (List.mem_range.1 hmem).false
  have hbound : ∀ b, b ∈ List.range n ∨ s₁.dev = some b → b < s₁.count := by
    rintro b (hb | hb)
    · rw [hcount]
      exact (List.mem_range.1 hb).trans (Nat.lt_succ_self _)
    · obtain rfl := Option.some.inj (hdev.symm.trans hb)
      rw [hcount]
      exact Nat.lt_succ_self _
  obtain ⟨k, hk, hring⟩ := hsound₁.ring.addTail (dev_notMem.2 hn)
  rcases scanSch_cases hs' with ⟨hnot, -⟩ | ⟨-, a, s₂, k', d, halloc', htype', hmodel', hk', h⟩
  · exact absurd hatt hnot
  · obtain ⟨rfl, rfl⟩ := Prod.mk.inj (halloc.symm.trans halloc')
    obtain rfl := Option.some.inj (hk.symm.trans hk')
    rcases h with ⟨e, -, rfl⟩ | ⟨k₁, k₂, hk₁, hk₂, hident, hset, -, rfl⟩
    · refine .kept (List.range n) n ?_ hdev hbound
      rw [List.map_append, List.map_singleton]
      exact hring
    · obtain ⟨k₁', hk₁', hring₁⟩ := hring.del_last
      obtain rfl := Option.some.inj (hk₁.symm.trans hk₁')
      obtain ⟨k₂', hk₂', hring₂⟩ := hring₁.addTail (dev_notMem.2 hn)
      obtain rfl := Option.some.inj (hk₂.symm.trans hk₂')
      refine .tainted (List.range (n + 1)) n ?_ List.self_mem_range_succ ?_ ?_
        fun _ h => (nomatch h)
      · rw [range_map_dev]
        exact hring₂
      · rw [ScanState.relink_mem, ScanState.set_mem_self, hset, hqueue]
        intro hq
        exact hclean ⟨htype.symm.trans htype', hmodel.symm.trans hmodel', hq, _, hident.identify_eq⟩
      · rintro b (hb | hb)
        · exact hcount ▸ List.mem_range.1 hb
        · cases hb

/-! ### The whole scan -/

/-- After the subchannels `schs` all is well, or something went wrong. -/
def ScanInv (env : ScanEnv) (schs : List (BitVec 32)) (s : ScanState) : Prop :=
  (env.CleanFor schs ∧ ScanSound env (env.attached schs) s) ∨ (¬ env.CleanFor schs ∧ ScanBad s)

/-- A clean scan is clean over every beginning of it. -/
theorem cleanFor_of_append {rest : List (BitVec 32)} (hclean : env.CleanFor (schs ++ rest)) :
    env.CleanFor schs := by
  have hsplit : env.attached (schs ++ rest) = env.attached schs ++ env.attached rest :=
    List.filter_append ..
  intro j sch hj
  refine hclean j sch ?_
  rwa [hsplit, List.getElem?_append_left (List.getElem?_eq_some_iff.1 hj).1]

/-- **One subchannel keeps the scan's invariant**, however the device behind it answers. -/
theorem ScanInv.step (h : ScanInv env schs s) (hs' : scanSch env scanTypes s sch = .ok s') :
    ScanInv env (schs ++ [sch]) s' := by
  rcases h with ⟨hclean, hsound⟩ | ⟨hclean, hbad⟩
  · by_cases hclean' : env.CleanFor (schs ++ [sch])
    · obtain ⟨s'', hs'', hsound'⟩ := hsound.step hclean'
      obtain rfl := Except.ok.inj (hs''.symm.trans hs')
      exact Or.inl ⟨hclean', hsound'⟩
    · have hatt : env.Attached sch := by
        by_contra hatt
        rw [ScanEnv.CleanFor, attached_append_not hatt] at hclean'
        exact hclean' hclean
      exact Or.inr ⟨hclean', hsound.bad hatt
        (fun hat => hclean' ((cleanFor_append hatt).2 ⟨hclean, hat⟩)) hs'⟩
  · exact Or.inr ⟨fun hclean' => hclean (cleanFor_of_append hclean'), hbad.step hs'⟩

/-- The invariant over the rest of the subchannels, by induction on them. -/
theorem ScanInv.run {rest : List (BitVec 32)} (h : ScanInv env schs s)
    (hs' : rest.foldlM (scanSch env scanTypes) s = .ok s') : ScanInv env (schs ++ rest) s' := by
  induction rest generalizing schs s with
  | nil =>
    obtain rfl := Except.ok.inj hs'
    rwa [List.append_nil]
  | cons sch rest ih =>
    rw [List.foldlM_cons] at hs'
    obtain ⟨s₁, hs₁, hs'⟩ := bind_eq_ok.1 hs'
    rw [List.append_cons]
    exact ih (h.step hs₁) hs'

/-- **A clean scan runs to its end.** From a sound state no step stops, and the state it ends in
is sound. -/
theorem ScanSound.run {rest : List (BitVec 32)} (hsound : ScanSound env (env.attached schs) s)
    (hclean : env.CleanFor (schs ++ rest)) :
    ∃ s', rest.foldlM (scanSch env scanTypes) s = .ok s' := by
  induction rest generalizing schs s with
  | nil => exact ⟨s, rfl⟩
  | cons sch rest ih =>
    rw [List.append_cons] at hclean
    obtain ⟨s₁, hs₁, hsound₁⟩ := hsound.step (cleanFor_of_append hclean)
    obtain ⟨s', hs'⟩ := ih hsound₁ hclean
    exact ⟨s', by rw [List.foldlM_cons]; exact bind_eq_ok.2 ⟨s₁, hs₁, hs'⟩⟩

/-- Before the first subchannel the list is empty and the state sound. -/
theorem scanInit_sound (env : ScanEnv) : ScanSound env [] (scanInit env) where
  ring := by
    refine ⟨⟨?_, ?_⟩, List.nodup_singleton _⟩
    · simp [scanInit, Links.put]
    · simp [scanInit, Links.put]
  setFor _ _ hj := (nomatch hj)
  live a := by simp [scanInit]
  dev := Or.inl ⟨rfl, rfl⟩

/-- A scan that returns has registered the drivers, looked at every subchannel and freed
the structure left over. -/
theorem scanDevices_eq_ok {types : List DeviceType} : scanDevices env = .ok (types, s') ↔
    types = registerDrivers ∧
      ∃ s, schids.foldlM (scanSch env scanTypes) (scanInit env) = .ok s ∧ s' = scanFree s := by
  have hscan : scanDevices env = schids.foldlM (scanSch env scanTypes) (scanInit env) >>=
      fun s => .ok (registerDrivers, scanFree s) := by
    unfold scanDevices
    generalize schids = schs
    rfl
  rw [hscan, bind_eq_ok]
  constructor
  · rintro ⟨s, hs, h⟩
    obtain ⟨rfl, rfl⟩ := Prod.mk.inj (Except.ok.inj h)
    exact ⟨rfl, s, hs, rfl⟩
  · rintro ⟨rfl, s, hs, rfl⟩
    exact ⟨s, hs, rfl⟩

/-- The `free` behind the loop touches neither the list nor the structures' contents; it takes
the structure left over back. -/
theorem scanFree_eq (s : ScanState) :
    (scanFree s).links = s.links ∧ (scanFree s).mem = s.mem ∧
      ∀ a, (scanFree s).live a = true ↔ s.live a = true ∧ s.dev ≠ some a := by
  rcases hdev : s.dev with _ | b
  · simp [scanFree, hdev]
  · refine ⟨by rw [scanFree, hdev], by rw [scanFree, hdev], fun a => ?_⟩
    rw [scanFree, hdev]
    by_cases hab : a = b
    · simp [hab]
    · simp [hab, Ne.symm hab]

/-- **A sound list** is as it ought to be after the scan. -/
theorem ScanSound.devicesOk (hnodup : schs.Nodup) (hsound : ScanSound env (env.attached schs) s) :
    DevicesOk env schs (scanFree s) := by
  obtain ⟨hlinks, hmem, hlive⟩ := scanFree_eq s
  refine ⟨List.range (env.attached schs).length, ?_, fun a => ?_, ?_, fun a ha => ?_⟩
  · rw [hlinks]
    exact hsound.ring
  · rw [List.mem_range, hlive, hsound.live]
    rcases hsound.dev with ⟨hdev, hcount⟩ | ⟨hdev, hcount, -⟩
    · simp [hdev, hcount]
    · rw [hdev, hcount, Ne, Option.some.injEq]
      omega
  · have hsch : (List.range (env.attached schs).length).map (fun a => (s.mem a).sch) =
        env.attached schs := by
      refine List.ext_getElem (by simp) fun j hj hj' => ?_
      rw [List.getElem_map, List.getElem_range]
      exact (hsound.setFor j _ (List.getElem?_eq_getElem hj')).identified.sch_eq
    rw [hmem, hsch]
    exact hnodup.filter _
  · have ha' := List.getElem?_eq_getElem (List.mem_range.1 ha)
    rw [hmem]
    exact ⟨_, List.mem_of_getElem? ha', hsound.setFor a _ ha'⟩

/-- Different addresses are different nodes. -/
theorem dev_injective : Function.Injective DevNode.dev := fun _ _ h => DevNode.dev.inj h

/-- **A bad one** is not. -/
theorem ScanBad.not_devicesOk (h : ScanBad s) : ¬ DevicesOk env schs (scanFree s) := by
  obtain ⟨hlinks, hmem, hlive⟩ := scanFree_eq s
  rintro ⟨l', hring, hall, -, hset⟩
  rw [hlinks] at hring
  have hsame : ∀ l : List ℕ, IsRing s.links .devices (l.map .dev) → l' = l := by
    intro l hl
    refine dev_injective.list_map (hl.path.forward.eq_of_isRing ?_ hring)
    simp
  cases h with
  | tainted l a ring mem queue bound dev =>
    obtain rfl := hsame l ring
    obtain ⟨sch, -, hsetFor⟩ := hset a mem
    rw [hmem] at hsetFor
    exact queue hsetFor.queue
  | kept l a ring dev bound =>
    have hlast : a ∈ l' := hsame _ ring ▸ List.mem_append_right l (List.mem_singleton_self a)
    exact ((hlive a).1 ((hall a).1 hlast)).2 dev
  | severed l a links bound dev => exact links.not_isRing hring

/-- **The list of devices is right exactly for clean answers.** Over different subchannels, the
scan ends with the devices listed and owned if and only if every attached one answers cleanly.
-/
theorem devicesOk_iff (env : ScanEnv) (hnodup : schs.Nodup) :
    (∃ s, schs.foldlM (scanSch env scanTypes) (scanInit env) = .ok s ∧
      DevicesOk env schs (scanFree s)) ↔ env.CleanFor schs := by
  have hinit : ScanInv env [] (scanInit env) :=
    Or.inl ⟨fun _ _ hj => (nomatch hj), scanInit_sound env⟩
  constructor
  · rintro ⟨s, hs, hok⟩
    rcases hinit.run hs with ⟨hclean, -⟩ | ⟨-, hbad⟩
    · exact hclean
    · exact absurd hok hbad.not_devicesOk
  · intro hclean
    have hsound : ScanSound env (env.attached []) (scanInit env) := scanInit_sound env
    obtain ⟨s, hs⟩ := hsound.run hclean
    rcases hinit.run hs with ⟨-, hsound⟩ | ⟨hnot, -⟩
    · exact ⟨s, hs, hsound.devicesOk hnodup⟩
    · exact absurd hclean hnot

/-- The scan looks at no subchannel number twice. -/
theorem schids_nodup : schids.Nodup := by
  refine List.Nodup.map_on (fun i hi j hj h => ?_) List.nodup_range
  have hi' := List.mem_range.1 hi
  have hj' := List.mem_range.1 hj
  have h' := congrArg BitVec.toNat h
  simp only [BitVec.toNat_add, BitVec.toNat_ofNat] at h'
  omega

/-- **The scan is as it ought to be** exactly when each structure it uses came with zeros in
the fields nobody sets and each enabled device can be asked. A device that cannot is put on
the list all the same, and its structure is used for the next one, or freed. -/
theorem scanGood_iff (env : ScanEnv) : ScanGood env ↔ env.CleanFor schids := by
  rw [← devicesOk_iff env schids_nodup]
  constructor
  · rintro ⟨types, s', hscan, hok⟩
    obtain ⟨-, s, hs, rfl⟩ := scanDevices_eq_ok.1 hscan
    exact ⟨s, hs, hok⟩
  · rintro ⟨s, hs, hok⟩
    exact ⟨registerDrivers, scanFree s, scanDevices_eq_ok.2 ⟨rfl, s, hs, rfl⟩, hok⟩

/-- One subchannel with a device that does not know Sense-ID, memory full of zeros. -/
def muteDevice : ScanEnv where
  storeSch sch := if sch = 0x10000 then 0 else -einval
  valid _ := true
  devNum _ := 0x0190
  modifySch _ := 0
  senseId _ := .error (-euchck)
  rdc _ _ := 0
  garbage _ :=
    { sch := 0, type := 0, model := 0, ccuu := 0, dev := none, qLock := 0, qCur := none,
      qOut := false, attention := 0, inUse := false, refcnt := 0 }
  pointers := { next := fun _ => none, prev := fun _ => none }

/-- One subchannel, whose device answers Sense-ID with an error: the device stays on the
list and its structure is freed behind the loop. -/
theorem not_scanGood : ¬ ∀ env, ScanGood env := by
  intro h
  obtain ⟨types, s', hscan, hok⟩ := h muteDevice
  obtain ⟨-, s, hs, rfl⟩ := scanDevices_eq_ok.1 hscan
  have hclean := (devicesOk_iff muteDevice schids_nodup).1 ⟨s, hs, hok⟩
  have hmem : (0x10000 : BitVec 32) ∈ muteDevice.attached schids := by
    refine List.mem_filter.2 ⟨List.mem_map.2 ⟨0, List.mem_range.2 (by omega), rfl⟩, ?_⟩
    exact decide_eq_true ⟨rfl, rfl, rfl⟩
  obtain ⟨j, hj, hsch⟩ := List.mem_iff_getElem.1 hmem
  obtain ⟨id, hid⟩ := (hclean j _ (List.getElem?_eq_some_iff.2 ⟨hj, hsch⟩)).identified
  cases hid

end Hvf
