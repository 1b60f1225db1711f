/-
# A block more

A data block that is added brings with it the blocks of its path, one for each
level, that were not there (`Climb`).  At the first level that has one the pointer
goes there; with a full tree, a new root does.  Either way the tree of the file is
that of one block more, and the other files are as they were (`appendBlock_spec`).

The slot of the pointer is computed from the number of blocks behind it, modulo
1024.  Where that is 0, it is the slot before the first (`LastSlot`).
-/

import Hvf.Installer.EdfExtend

namespace Hvf

open Loader Outcome

/-- A file one data block longer has at each level the block that this data block is under. -/
theorem fileBlocksAtLevel_succ {n l : ℕ} (h : n + 1024 ^ l < 2 ^ 32) :
    fileBlocksAtLevel (n + 1) l = n / 1024 ^ l + 1 := by
  have hpos : 0 < 1024 ^ l := Nat.pow_pos (by decide)
  rw [fileBlocksAtLevel, show n + 1 + 1024 ^ l - 1 = n + 1024 ^ l by omega, Nat.mod_eq_of_lt h,
    Nat.add_div_right n hpos]

namespace Tree

/-- The pointer to the new block goes to the last slot of a block. -/
def LastSlot (t : Tree) : Prop :=
  ∃ l < t.nlvl, 1024 ^ l ∣ t.adbc ∧ t.adbc / 1024 ^ l % 1024 = 1023

/-- The file can have one block more: no block that is to be added is in the list,
and the pointer does not go to the last slot of a block. -/
structure Grows (v : View) (t : Tree) : Prop where
  absent : ∀ l ≤ t.nlvl, 1024 ^ l ∣ t.adbc → v.lba (t.path l) = none
  slot : ¬ t.LastSlot

/-- The blocks on a path are at different levels. -/
theorem path_inj (t : Tree) {l l' : ℕ} (h : t.path l = t.path l') : l = l' :=
  congrArg BlockKey.level h

/-- The blocks of a file with one data block more. -/
theorem has_succ_iff (t : Tree) (n fop : ℕ) (key : BlockKey) :
    (Tree.mk t.name (t.adbc + 1) n fop).Has key ↔
      (key.name = t.name ∧ key.level ≤ n ∧ key.blkNo * 1024 ^ key.level < t.adbc) ∨
        ∃ l ≤ n, 1024 ^ l ∣ t.adbc ∧ key = t.path l := by
  constructor
  · rintro ⟨hname, hlevel, hlt⟩
    rcases Nat.lt_succ_iff_lt_or_eq.1 hlt with hlt | heq
    · exact Or.inl ⟨hname, hlevel, hlt⟩
    · have hpos : 0 < 1024 ^ key.level := Nat.pow_pos (by decide)
      have hdiv : t.adbc / 1024 ^ key.level = key.blkNo := by
        rw [← heq]
        exact Nat.mul_div_cancel _ hpos
      refine Or.inr ⟨key.level, hlevel, ⟨key.blkNo, by rw [Nat.mul_comm]; exact heq.symm⟩, ?_⟩
      rw [path, hdiv, ← hname]
  · rintro (⟨hname, hlevel, hlt⟩ | ⟨l, hl, hdvd, rfl⟩)
    · exact ⟨hname, hlevel, Nat.lt_succ_of_lt hlt⟩
    · exact ⟨rfl, hl, Nat.lt_succ_of_le (Nat.div_mul_le_self _ _)⟩

end Tree

/-- **A file, and what `__append_block` relies on**: the list of blocks and the map are in
order, the file's tree is in its blocks, and the pointer that is to be written goes inside a
pointer block. -/
structure Base (s : Loader) (p : FstPtr) (m : ℕ) : Prop where
  sound : Sound s
  map : MapOk s
  blocks : Fst.adbc (s.fst .allocmap) = m
  directory : s.view.lba dirKey ≠ none
  ok : (treeOf (s.fst p)).Ok s.view
  grows : (treeOf (s.fst p)).Grows s.view
  name : Fst.name (s.fst p) ≠ allocmapName
  ptr : p ≠ .allocmap
  adbc : Fst.adbc (s.fst p) < 2 ^ 20

/-- **What `__append_block` leaves: the file has one block more.** Its tree is in order
again, its new blocks were free and are marked, and nothing else has changed. -/
structure Grown (s s' : Loader) (p : FstPtr) (m : ℕ) : Prop where
  sound : Sound s'
  disk : s'.disk = s.disk
  nfst : s'.nfst = s.nfst
  stray : s'.stray = s.stray
  fst_other : ∀ q, q ≠ p → s'.fst q = s.fst q
  same : SameFile (s.fst p) (s'.fst p)
  aic : Fst.aic (s'.fst p) = Fst.aic (s.fst p)
  adbc : Fst.adbc (s'.fst p) = Fst.adbc (s.fst p) + 1
  tree : (treeOf (s'.fst p)).Ok s'.view
  lba_old : ∀ key lba, s.view.lba key = some lba → s'.view.lba key = some lba
  fresh : ∀ key, s.view.lba key = none → s'.view.lba key ≠ none →
    (treeOf (s'.fst p)).Has key ∧ ∃ lba, s'.view.lba key = some lba ∧ lba - 1 < 32768 * m ∧
      s.view.bit (lba - 1) = false ∧ s'.view.bit (lba - 1) = true
  inj : ∀ key key', s.view.lba key = none → s.view.lba key' = none → s'.view.lba key ≠ none →
    s'.view.lba key = s'.view.lba key' → key = key'
  content : ∀ key i, s.view.lba key ≠ none → (key.name ≠ Fst.name (s.fst p) ∨ key.level = 0) →
    ¬ MapBlock m key → (key = dirKey → 64 ≤ i) → s'.view.content key i = s.view.content key i
  bits : ∀ y, s.view.bit y = true → s'.view.bit y = true
  dirty : ∀ key, s'.view.dirty key = true →
    s.view.dirty key = true ∨ (treeOf (s'.fst p)).Has key ∨ MapBlock m key
  dirtied : ∀ key, s.view.dirty key = true → s'.view.dirty key = true
  free : ∀ k, Free s.view m (k + (Fst.nlvl (s.fst p) + 2)) → Free s'.view m k

/-- **A change of an FST that gives its file one block more** and leaves its name, format
and records. -/
structure OneMore (f : DiskBlock → DiskBlock) : Prop where
  fst : FstChange f
  same : ∀ buf, SameFile buf (f buf)
  aic : ∀ buf, Fst.aic (f buf) = Fst.aic buf
  adbc : ∀ buf, Fst.adbc buf < 2 ^ 20 → Fst.adbc (f buf) = Fst.adbc buf + 1

section

variable {s u : Loader} {p : FstPtr} {m c : ℕ} {new changed : BlockKey → Prop}

/-- The FST is changed last. -/
theorem Extends.grown (h : Extends s u m new changed c) (hb : Base s p m)
    (hc : c ≤ Fst.nlvl (s.fst p) + 2) {f : DiskBlock → DiskBlock} (hf : OneMore f)
    (hok : (treeOf (f (s.fst p))).Ok u.view)
    (hnew : ∀ key, new key → (treeOf (f (s.fst p))).Has key)
    (hchanged : ∀ key, changed key → (treeOf (f (s.fst p))).Has key ∧ key.level ≠ 0) :
    Grown s (u.setFst p f) p m := by
  have hdirChanged : ¬ changed dirKey := fun hch => (hchanged dirKey hch).2 rfl
  have hfst := h.fst_eq hb.directory hdirChanged
  obtain ⟨lbaDir, hlbaDir⟩ := Option.ne_none_iff_exists'.1 hb.directory
  obtain ⟨hsound, hself, hview, hfsts, hdisk, hnfst, hstray⟩ :=
    setFst_spec h.sound (h.lba_old hlbaDir) hf.fst hb.ptr
  generalize hs' : u.setFst p f = s' at hsound hself hview hfsts hdisk hnfst hstray ⊢
  rw [hfst] at hself
  -- of the blocks, only the first of the directory may be another
  have hlba : s'.view.lba = u.view.lba := by
    rw [hview]
    split
    · rfl
    · rfl
  have hdirty : s'.view.dirty = u.view.dirty := by
    rw [hview]
    split
    · rfl
    · rfl
  have hcontent : ∀ key i, (key = dirKey → 64 ≤ i) →
      s'.view.content key i = u.view.content key i := by
    intro key i hi
    rw [hview]
    split
    · rw [View.poke_content]
      split
      · rename_i hkey
        rw [hf.fst _ _ (hi hkey), hkey]
      · rfl
    · rfl
  have hcontent' : ∀ key, key ≠ dirKey → s'.view.content key = u.view.content key :=
    fun key hne => funext fun i => hcontent key i fun heq => absurd heq hne
  have hbit : ∀ y, s'.view.bit y = u.view.bit y := fun y =>
    View.bit_congr (hcontent' _ fun heq : mapKey y = dirKey =>
      absurd (congrArg BlockKey.name heq) (by decide : allocmapName ≠ directorName))
  obtain ⟨bm, hrest⟩ := h.rest
  constructor
  case sound => exact hsound
  case disk => rw [hdisk, hrest]
  case nfst => rw [hnfst, hrest]
  case stray => rw [hstray, hrest]
  case fst_other =>
    intro q hq
    rw [← hfst q]
    cases q with
    | directory =>
      rw [fst_directory, fst_directory, hview, if_neg (Ne.symm hq)]
    | allocmap =>
      rw [fst_allocmap, fst_allocmap]
      funext i
      exact hcontent dirKey (64 + i) fun _ => Nat.le_add_right 64 i
    | caller i =>
      rw [fst_caller, fst_caller, hfsts]
      cases p with
      | directory => rfl
      | allocmap => rfl
      | caller j => exact Function.update_of_ne (fun heq => hq (by rw [heq])) _ _
  case same =>
    rw [hself]
    exact hf.same _
  case aic => rw [hself, hf.aic]
  case adbc => rw [hself, hf.adbc _ hb.adbc]
  case tree =>
    rw [hself]
    refine hok.congr (fun l i => by rw [hlba]) fun key _ hlevel => hcontent' key ?_
    rintro rfl
    exact hlevel rfl
  case lba_old =>
    intro key lba hkey
    rw [hlba, h.lba_old hkey]
  case fresh =>
    intro key hnone hsome
    rw [hlba] at hsome
    have hkey : new key := by
      by_contra hnot
      exact hsome (h.lba_none hnone hnot)
    obtain ⟨lba, hlba', -, hlt, hclear, hset⟩ := h.fresh key hkey
    rw [hself]
    exact ⟨hnew key hkey, lba, by rw [hlba, hlba'], hlt, hclear, by rw [hbit, hset]⟩
  case inj =>
    intro key key' hnone hnone' hsome heq
    rw [hlba] at hsome heq
    have hkey : new key := by
      by_contra hnot
      exact hsome (h.lba_none hnone hnot)
    have hkey' : new key' := by
      by_contra hnot
      exact hsome (heq.trans (h.lba_none hnone' hnot))
    exact h.inj key key' hkey hkey' heq
  case content =>
    intro key i hkey hname hmap hi
    have hunchanged : ¬ changed key := by
      intro hch
      obtain ⟨hhas, hlevel⟩ := hchanged key hch
      rcases hname with hname | hzero
      · exact hname (hhas.1.trans (hf.same _).name)
      · exact hlevel hzero
    rw [hcontent key i hi, h.content key hkey hunchanged hmap]
  case bits =>
    intro y hset
    rw [hbit, h.bits y hset]
  case dirty =>
    intro key hkey
    rw [hdirty] at hkey
    rw [hself]
    rcases h.dirty key hkey with hold | hk | hk | hk
    · exact Or.inl hold
    · exact Or.inr (Or.inl (hnew key hk))
    · exact Or.inr (Or.inl (hchanged key hk).1)
    · exact Or.inr (Or.inr hk)
  case dirtied =>
    intro key hkey
    rw [hdirty, h.dirtied key hkey]
  case free =>
    intro k hfree
    obtain ⟨F, hcard, hF⟩ := h.free k (hfree.mono (by omega))
    exact ⟨F, hcard, fun y hy => ⟨(hF y hy).1, by rw [hbit, (hF y hy).2]⟩⟩

end

/-! ### The loop -/

/-- `u` is `s` with the blocks of the path below level `lvl`, that were not there;
`prev` is the last of them. -/
structure Climb (s u : Loader) (t : Tree) (m lvl prev : ℕ) : Prop where
  ext : Extends s u m (fun key => ∃ l < lvl, key = t.path l) (fun _ => False) lvl
  prev : ∀ l, lvl = l + 1 → u.view.lba (t.path l) = some prev
  ptr : ∀ l, l + 1 < lvl →
    u.view.lba (t.path l) = some (ptrAt (u.view.content (t.path (l + 1))) 0)

section

variable {s u : Loader} {p : FstPtr} {t : Tree} {m lvl prev : ℕ}

/-- Before the first level nothing has been made. -/
theorem Climb.start (hs : Sound s) : Climb s s t m 0 0 where
  ext := (Extends.refl hs m _).congr fun _ =>
    ⟨fun h => h.elim, fun ⟨l, hl, _⟩ => absurd hl (Nat.not_lt_zero l)⟩
  prev l hl := absurd hl (Nat.succ_ne_zero l).symm
  ptr l hl := absurd hl (Nat.not_lt_zero (l + 1))

/-- Below a level already made no block of the path is new. -/
theorem Climb.not_new (t : Tree) {lvl l : ℕ} (hl : lvl ≤ l) :
    ¬ ∃ l' < lvl, t.path l = t.path l' := by
  rintro ⟨l', hl', heq⟩
  have := t.path_inj heq
  omega

/-- The block made at the level below has a number of four bytes. -/
theorem Climb.prev_lt (hc : Climb s u t m lvl prev) (hsmall : 32768 * m < 2 ^ 32) (hlvl : lvl ≠ 0) :
    prev < 2 ^ 32 := by
  obtain ⟨l, rfl⟩ := Nat.exists_eq_succ_of_ne_zero hlvl
  obtain ⟨lba, hlba, -, hlt, -⟩ := hc.ext.fresh (t.path l) ⟨l, Nat.lt_succ_self l, rfl⟩
  obtain rfl := Option.some.inj (hlba.symm.trans (hc.prev l rfl))
  omega

/-- The block of one more level is added, with a pointer to the one below. -/
theorem Climb.step (hc : Climb s u t m lvl prev) (hsmall : 32768 * m < 2 ^ 32)
    (hname : t.name ≠ allocmapName) (hdir : s.view.lba dirKey ≠ none)
    (habsent : s.view.lba (t.path lvl) = none) {r : ℕ × Loader} {y : ℕ} (hy : y < 32768 * m)
    (hr : FreeBlock u r y) :
    ∃ u₁ u₂, r.2.blockMapAdd (t.path lvl) r.1 = some u₁ ∧
      (if lvl = 0 then some u₁ else u₁.edit (t.path lvl) true fun buf => setPtrAt buf 0 prev)
        = some u₂ ∧ Climb s u₂ t m (lvl + 1) r.1 := by
  have hkey : t.path lvl ≠ dirKey := fun heq => hdir (heq ▸ habsent)
  obtain ⟨u₁, hadd, hlba, hother, hcontent, hext⟩ :=
    hc.ext.take hy hr habsent (Climb.not_new t le_rfl) hname hkey
  have hext₁ : Extends s u₁ m (fun key => ∃ l < lvl + 1, key = t.path l) (fun _ => False)
      (lvl + 1) := hext.congr fun key => by
    simp only [Nat.lt_succ_iff_lt_or_eq, or_and_right, exists_or, exists_eq_left]
  have hpath : ∀ l, l ≠ lvl → t.path l ≠ t.path lvl := fun l hl heq => hl (t.path_inj heq)
  have hmap : ∀ l, ¬ MapBlock m (t.path l) := fun l hmap => hname hmap.1
  by_cases hzero : lvl = 0
  · -- a data block has no pointers
    refine ⟨u₁, u₁, hadd, if_pos hzero, hext₁, fun l hl => ?_, fun l hl => by omega⟩
    obtain rfl : lvl = l := Nat.succ.inj hl
    exact hlba
  · obtain ⟨u₂, hedit, hview, hext₂⟩ := hext₁.edit hlba (by rw [hr.lba]; omega)
      (Or.inl ⟨lvl, Nat.lt_succ_self lvl, rfl⟩) hname fun buf => setPtrAt buf 0 prev
    refine ⟨u₁, u₂, hadd, (if_neg hzero).trans hedit, hext₂, fun l hl => ?_, fun l hl => ?_⟩
    · obtain rfl : lvl = l := Nat.succ.inj hl
      rw [hview, View.edit_lba, hlba]
    · rw [hview, View.edit_lba, View.edit_content, hother _ (hpath l (by omega))]
      by_cases hlast : l + 1 = lvl
      · rw [if_pos (by rw [hlast]), ptrAt_setPtrAt_self _ _ (hc.prev_lt hsmall hzero)]
        exact hc.prev l hlast.symm
      · rw [if_neg (hpath (l + 1) hlast), hcontent _ (hpath (l + 1) hlast) (hmap (l + 1))]
        exact hc.ptr l (by omega)

/-- The pointers of the blocks that were there are as they were. -/
theorem Climb.child_old (hc : Climb s u t m lvl prev) (hok : t.Ok s.view)
    (hname : t.name ≠ allocmapName) {l i : ℕ} (hkey : t.Has ⟨t.name, l, i⟩) (hl : l < t.nlvl) :
    u.view.lba ⟨t.name, l, i⟩ =
      some (ptrAt (u.view.content ⟨t.name, l + 1, i / 1024⟩) (i % 1024)) := by
  obtain ⟨lba, hlba, -⟩ := hok.present _ hkey
  obtain ⟨lba', hlba', -⟩ := hok.present _ (hkey.parent hl)
  have hcontent := hc.ext.content ⟨t.name, l + 1, i / 1024⟩
    (by rw [hlba']; exact Option.some_ne_none lba') id fun hmap => hname hmap.1
  rw [hc.ext.lba_old hlba, hcontent, ← hok.child l i hkey hl, hlba]

/-- The block above one of the path is the next one of the path. -/
theorem Tree.path_parent (t : Tree) (l : ℕ) :
    (⟨t.name, l + 1, t.adbc / 1024 ^ l / 1024⟩ : BlockKey) = t.path (l + 1) := by
  rw [path, pow_succ, Nat.div_div_eq_div_mul]

/-- The block above is another new one, with one pointer. -/
theorem Climb.child_path (hc : Climb s u t m lvl prev) {l : ℕ} (hl : l + 1 < lvl)
    (hdvd : 1024 ^ (l + 1) ∣ t.adbc) :
    u.view.lba (t.path l) =
      some (ptrAt (u.view.content (t.path (l + 1))) (t.adbc / 1024 ^ l % 1024)) := by
  have hmod : t.adbc / 1024 ^ l % 1024 = 0 := by
    obtain ⟨q, hq⟩ := hdvd
    rw [hq, pow_succ, Nat.mul_assoc, Nat.mul_div_cancel_left _ (by positivity), Nat.mul_mod_right]
  rw [hmod]
  exact hc.ptr l hl

/-- **The pointer goes to a block that was there.** -/
theorem Climb.ok_found {l : ℕ} (hc : Climb s u t m (l + 1) prev) (hok : t.Ok s.view)
    (hsmall : 32768 * m < 2 ^ 32) (hname : t.name ≠ allocmapName) (hl : l + 1 ≤ t.nlvl)
    (hdvd : 1024 ^ l ∣ t.adbc) (hnot : ¬ 1024 ^ (l + 1) ∣ t.adbc) :
    (Tree.mk t.name (t.adbc + 1) t.nlvl t.fop).Ok (u.view.edit (t.path (l + 1)) fun buf =>
      setPtrAt buf (t.adbc / 1024 ^ l % 1024) prev) := by
  have hlow : ∀ l', 1024 ^ l' ∣ t.adbc → l' < l + 1 := by
    intro l' hl'
    by_contra hge
    exact hnot ((pow_dvd_pow 1024 (by omega)).trans hl')
  constructor
  case height =>
    refine lt_of_le_of_ne hok.height fun heq => hnot ?_
    show 1024 ^ (l + 1) ∣ t.adbc
    rw [heq]
    exact pow_dvd_pow 1024 hl
  case least => exact fun hne => Nat.lt_succ_of_lt (hok.least hne)
  case present =>
    intro key hkey
    rw [View.edit_lba]
    rcases (t.has_succ_iff _ _ key).1 hkey with hkey | ⟨l', -, hl', rfl⟩
    · obtain ⟨lba, hlba, hne⟩ := hok.present key hkey
      exact ⟨lba, hc.ext.lba_old hlba, hne⟩
    · obtain ⟨lba, hlba, hne, -⟩ := hc.ext.fresh (t.path l') ⟨l', hlow l' hl', rfl⟩
      exact ⟨lba, hlba, hne⟩
  case top =>
    intro l' i hl'
    dsimp only at hl' ⊢
    rw [View.edit_lba]
    refine hc.ext.lba_none (hok.top l' i hl') ?_
    rintro ⟨l'', hl'', heq⟩
    have : l' = l'' := congrArg BlockKey.level heq
    omega
  case root =>
    intro _
    rw [View.edit_lba]
    have hne : t.adbc ≠ 0 := fun hzero => hnot (hzero ▸ dvd_zero _)
    exact hc.ext.lba_old (hok.root hne)
  case child =>
    intro l' i hkey hl'
    dsimp only at hl' hkey ⊢
    rw [View.edit_lba, View.edit_content]
    rcases (t.has_succ_iff _ _ _).1 hkey with hkey | ⟨k, -, hk, heq⟩
    · -- a block that was there
      rw [hc.child_old hok hname hkey hl']
      split
      · rename_i heq
        obtain rfl : l' = l := Nat.succ.inj (congrArg BlockKey.level heq)
        have hblk : i / 1024 = t.adbc / 1024 ^ (l' + 1) := congrArg BlockKey.blkNo heq
        have hlt : i < t.adbc / 1024 ^ l' :=
          (Nat.lt_div_iff_mul_lt_of_dvd (by positivity) hdvd).2 hkey.2.2
        rw [pow_succ, ← Nat.div_div_eq_div_mul] at hblk
        rw [heq, ptrAt_setPtrAt_of_ne _ _ (by omega)]
      · rfl
    · -- a block of the path
      obtain rfl : l' = k := congrArg BlockKey.level heq
      obtain rfl : i = t.adbc / 1024 ^ l' := congrArg BlockKey.blkNo heq
      rw [t.path_parent]
      by_cases hlast : l' = l
      · subst hlast
        rw [if_pos rfl, ptrAt_setPtrAt_self _ _ (hc.prev_lt hsmall (Nat.succ_ne_zero l'))]
        exact hc.prev l' rfl
      · have hlt : l' < l + 1 := hlow l' hk
        rw [if_neg fun heq => hlast (Nat.succ.inj (t.path_inj heq))]
        exact hc.child_path (by omega) ((pow_dvd_pow 1024 (by omega)).trans hdvd)

/-- **A full tree has a new root.** -/
theorem Climb.ok_root (hc : Climb s u t m (t.nlvl + 1) prev) (hok : t.Ok s.view)
    (hsmall : 32768 * m < 2 ^ 32) (hname : t.name ≠ allocmapName)
    (hfop : t.fop < 2 ^ 32) (hdvd : 1024 ^ t.nlvl ∣ t.adbc) (hne : t.adbc ≠ 0)
    {r : ℕ × Loader} {y : ℕ} (hy : y < 32768 * m) (hr : FreeBlock u r y) :
    ∃ u₁ u₂, r.2.blockMapAdd ⟨t.name, t.nlvl + 1, 0⟩ r.1 = some u₁ ∧
      Extends s u₁ m (fun key => (∃ l < t.nlvl + 1, key = t.path l) ∨
        key = ⟨t.name, t.nlvl + 1, 0⟩) (fun _ => False) (t.nlvl + 2) ∧
      u₁.edit ⟨t.name, t.nlvl + 1, 0⟩ true
        (fun buf => setPtrAt (setPtrAt buf 0 t.fop) 1 prev) = some u₂ ∧
      Extends s u₂ m (fun key => (∃ l < t.nlvl + 1, key = t.path l) ∨
        key = ⟨t.name, t.nlvl + 1, 0⟩) (fun _ => False) (t.nlvl + 2) ∧
      (Tree.mk t.name (t.adbc + 1) (t.nlvl + 1) r.1).Ok u₂.view := by
  have hfull : t.adbc = 1024 ^ t.nlvl :=
    le_antisymm hok.height (Nat.le_of_dvd (Nat.pos_of_ne_zero hne) hdvd)
  have hpow : 0 < 1024 ^ t.nlvl := by positivity
  have hnotNew : ¬ ∃ l < t.nlvl + 1, (⟨t.name, t.nlvl + 1, 0⟩ : BlockKey) = t.path l := by
    rintro ⟨l, hl, heq⟩
    have : t.nlvl + 1 = l := congrArg BlockKey.level heq
    omega
  have hroot : (⟨t.name, t.nlvl + 1, 0⟩ : BlockKey) ≠ dirKey := fun heq =>
    absurd (congrArg BlockKey.level heq) (Nat.succ_ne_zero t.nlvl)
  obtain ⟨u₁, hadd, hlba, hother, hcontent, hext⟩ := hc.ext.take hy hr
    (hok.top _ 0 (Nat.lt_succ_self t.nlvl)) hnotNew hname hroot
  obtain ⟨u₂, hedit, hview, hext₂⟩ := hext.edit hlba (by rw [hr.lba]; omega) (Or.inr rfl |> Or.inl)
    hname fun buf => setPtrAt (setPtrAt buf 0 t.fop) 1 prev
  refine ⟨u₁, u₂, hadd, hext, hedit, hext₂, ?_⟩
  have hprev := hc.prev_lt hsmall (Nat.succ_ne_zero t.nlvl)
  -- below the root the blocks and their pointers are as the climb left them
  have hbelow : ∀ l i, l ≤ t.nlvl → u₂.view.lba ⟨t.name, l, i⟩ = u.view.lba ⟨t.name, l, i⟩ ∧
      u₂.view.content ⟨t.name, l, i⟩ = u.view.content ⟨t.name, l, i⟩ := by
    intro l i hl
    have hne' : (⟨t.name, l, i⟩ : BlockKey) ≠ ⟨t.name, t.nlvl + 1, 0⟩ := fun heq => by
      have : l = t.nlvl + 1 := congrArg BlockKey.level heq
      omega
    rw [hview, View.edit_lba, View.edit_content, if_neg hne', hother _ hne',
      hcontent _ hne' fun hmap => hname hmap.1]
    exact ⟨rfl, rfl⟩
  have hptr : ∀ off, ptrAt (u₂.view.content ⟨t.name, t.nlvl + 1, 0⟩) off =
      ptrAt (setPtrAt (setPtrAt (u₁.view.content ⟨t.name, t.nlvl + 1, 0⟩) 0 t.fop) 1 prev) off :=
    fun off => by rw [hview, View.edit_content, if_pos rfl]
  have hlow : ∀ l, 1024 ^ l ∣ t.adbc → l ≤ t.nlvl := fun l hl =>
    (Nat.pow_dvd_pow_iff_le_right (by decide)).1 (hfull ▸ hl)
  have hfirst : ∀ l i, t.nlvl ≤ l → i * 1024 ^ l < t.adbc → i = 0 := by
    intro l i hl hlt
    by_contra hpos
    have hle : 1024 ^ t.nlvl ≤ 1024 ^ l := Nat.pow_le_pow_right (by decide) hl
    have := Nat.le_mul_of_pos_left (1024 ^ l) (Nat.pos_of_ne_zero hpos)
    omega
  constructor
  case height =>
    show t.adbc + 1 ≤ 1024 ^ (t.nlvl + 1)
    rw [pow_succ]
    omega
  case least =>
    intro _
    show 1024 ^ t.nlvl < t.adbc + 1
    omega
  case present =>
    intro key hkey
    rcases (t.has_succ_iff _ _ key).1 hkey with ⟨hname', hlevel, hlt⟩ | ⟨l, -, hl, rfl⟩
    · by_cases htop : key.level = t.nlvl + 1
      · obtain ⟨name, level, blkNo⟩ := key
        obtain rfl : name = t.name := hname'
        obtain rfl : level = t.nlvl + 1 := htop
        obtain rfl : blkNo = 0 := hfirst _ _ (Nat.le_succ t.nlvl) hlt
        obtain ⟨lba, hlba, hne, -⟩ := hext₂.fresh _ (Or.inr rfl)
        exact ⟨lba, hlba, hne⟩
      · obtain ⟨lba, hlba, hne⟩ := hok.present key ⟨hname', by omega, hlt⟩
        exact ⟨lba, hext₂.lba_old hlba, hne⟩
    · obtain ⟨lba, hlba, hne, -⟩ := hext₂.fresh (t.path l)
        (Or.inl ⟨l, Nat.lt_succ_of_le (hlow l hl), rfl⟩)
      exact ⟨lba, hlba, hne⟩
  case top =>
    intro l i hl
    dsimp only at hl ⊢
    refine hext₂.lba_none (hok.top l i (by omega)) ?_
    rintro (⟨l', hl', heq⟩ | heq)
    · have : l = l' := congrArg BlockKey.level heq
      omega
    · have : l = t.nlvl + 1 := congrArg BlockKey.level heq
      omega
  case root =>
    intro _
    rw [hview, View.edit_lba, hlba]
  case child =>
    intro l i hkey hl
    dsimp only at hl hkey ⊢
    rw [(hbelow l i (by omega)).1]
    rcases (t.has_succ_iff _ _ _).1 hkey with ⟨-, -, hlt⟩ | ⟨k, -, hk, heq⟩
    · have hhas : t.Has ⟨t.name, l, i⟩ := ⟨rfl, by show l ≤ t.nlvl; omega, hlt⟩
      by_cases htop : l = t.nlvl
      · -- the root until now
        obtain rfl : i = 0 := hfirst l i htop.ge hlt
        rw [htop, hc.ext.lba_old (hok.root hne), hptr, ptrAt_setPtrAt_of_ne _ _ (by decide),
          ptrAt_setPtrAt_self _ _ hfop]
      · rw [(hbelow (l + 1) _ (by omega)).2]
        exact hc.child_old hok hname hhas (by omega)
    · obtain rfl : l = k := congrArg BlockKey.level heq
      obtain rfl : i = t.adbc / 1024 ^ l := congrArg BlockKey.blkNo heq
      by_cases htop : l = t.nlvl
      · have hone : t.adbc / 1024 ^ t.nlvl = 1 := by rw [hfull, Nat.div_self hpow]
        rw [heq, htop, hone, hptr, ptrAt_setPtrAt_self _ _ hprev]
        exact hc.prev t.nlvl rfl
      · have hup := (hbelow (l + 1) (t.adbc / 1024 ^ l / 1024) (by omega)).2
        rw [hup, t.path_parent]
        exact hc.child_path (by omega) (hfull ▸ pow_dvd_pow 1024 (by omega))

end

end Hvf
