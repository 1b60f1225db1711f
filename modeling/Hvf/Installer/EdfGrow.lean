/-
# A file grows

`__append_block` for a file whose tree is in its blocks (`Base`) leaves the tree of one
block more (`appendBlock_spec`).  The loop goes up as long as the next data block begins
a block of the level (`Climb`); it ends at a block that was there, or with a new root.
-/

import Hvf.Installer.EdfFrame

namespace Hvf

open Loader Outcome

namespace Extends

variable {s u : Loader} {m c : ℕ} {new changed : BlockKey → Prop}

/-- A growth that changes some blocks is one that changes more at most. -/
theorem changing (changed' : BlockKey → Prop) (h : Extends s u m new changed c)
    (hsub : ∀ key, changed key → changed' key) :
    Extends s u m new changed' c :=
  { h with
    content := fun key hkey hnot => h.content key hkey fun hch => hnot (hsub key hch)
    dirty := fun key hdirty => (h.dirty key hdirty).imp_right fun hrest =>
      hrest.imp_right fun hrest => hrest.imp_left (hsub key) }

end Extends

namespace Tree

variable {t : Tree} {v : View}

/-- The blocks of the path that are not in the list are those that the next data block
begins. -/
theorem Grows.absent_iff (hg : t.Grows v) (hok : t.Ok v) {l : ℕ} (hl : l ≤ t.nlvl) :
    v.lba (t.path l) = none ↔ 1024 ^ l ∣ t.adbc := by
  constructor
  · intro hnone
    by_contra hnot
    obtain ⟨lba, hlba, -⟩ := hok.present _ ((has_path_iff hl).2 hnot)
    cases hnone.symm.trans hlba
  · exact hg.absent l hl

end Tree

/-- The FST of a file with one block more, below the same root. -/
theorem treeOf_more {fst : DiskBlock} (hadbc : Fst.adbc fst < 2 ^ 20) :
    treeOf (Fst.setAdbc fst (Fst.adbc fst + 1)) =
      ⟨Fst.name fst, Fst.adbc fst + 1, Fst.nlvl fst, Fst.fop fst⟩ := by
  rw [treeOf, Tree.mk.injEq]
  refine ⟨(oneMore_adbc.same fst).name, oneMore_adbc.adbc fst hadbc,
    Fst.nlvl_setPtrAt fst _ (by decide), ptrAt_setPtrAt_of_ne _ _ (by decide)⟩

/-- The FST of a file with one block more and a new root. -/
theorem treeOf_root {fst : DiskBlock} (hadbc : Fst.adbc fst < 2 ^ 20) (hnlvl : Fst.nlvl fst < 255)
    {lba : ℕ} (hlba : lba < 2 ^ 32) :
    treeOf (Fst.setAdbc (Fst.setNlvl (Fst.setFop fst lba) (Fst.nlvl fst + 1)) (Fst.adbc fst + 1)) =
      ⟨Fst.name fst, Fst.adbc fst + 1, Fst.nlvl fst + 1, lba⟩ := by
  rw [treeOf, Tree.mk.injEq]
  refine ⟨((oneMore_root lba).same fst).name, (oneMore_root lba).adbc fst hadbc, ?_, ?_⟩
  · rw [Fst.setAdbc, Fst.nlvl_setPtrAt _ _ (by decide), Fst.nlvl_setNlvl _ (by omega)]
  · rw [Fst.fop, Fst.setAdbc, ptrAt_setPtrAt_of_ne _ _ (by decide),
      Fst.ptrAt_setNlvl _ _ (by decide), Fst.setFop, ptrAt_setPtrAt_self _ _ hlba]

section

variable {s u : Loader} {p : FstPtr} {t : Tree} {m lvl prev : ℕ}

/-- On the way up no entry changes. -/
theorem Climb.fst_eq (hc : Climb s u t m lvl prev) (hb : Base s p m) (q : FstPtr) :
    u.fst q = s.fst q :=
  hc.ext.fst_eq hb.directory id q

/-- The key that `__append_block` computes is that of the path. -/
theorem Base.key_eq (hb : Base s p m) (ht : t = treeOf (s.fst p)) {l : ℕ} (hl : l ≤ t.nlvl) :
    (⟨Fst.name (s.fst p), l, fileBlocksAtLevel (Fst.adbc (s.fst p) + 1) l - 1⟩ : BlockKey) =
      t.path l := by
  subst ht
  have hadbc := hb.adbc
  have hpow := hb.ok.pow_le (by show Fst.adbc (s.fst p) ≤ 2 ^ 20; omega) hl
  rw [fileBlocksAtLevel_succ (by omega), Nat.add_sub_cancel]
  rfl

/-- `__get_free_block` in the loop. -/
theorem Climb.getFreeBlock_spec {ok : Prop} (hc : Climb s u t m lvl prev) (hb : Base s p m)
    (hok : ok → Free s.view m (lvl + 1)) :
    Spec ok u.getFreeBlock fun r => ∃ y < 32768 * m, FreeBlock u r y := by
  have hfst := hc.fst_eq hb .allocmap
  have hmap := hc.ext.mapOk hb.map hfst
  have hblocks : Fst.adbc (u.fst .allocmap) = m := by rw [hfst, hb.blocks]
  have h : Spec ok u.getFreeBlock fun r => ∃ y < 32768 * Fst.adbc (u.fst .allocmap),
      FreeBlock u r y := Hvf.getFreeBlock_spec hc.ext.sound hmap fun hyes => by
    rw [hblocks]
    exact (hc.ext.free 1 ((hok hyes).mono (by omega))).exists_clear
  rwa [hblocks] at h

/-- A full tree. -/
theorem Climb.appendRoot_spec {ok : Prop} (hc : Climb s u t m (t.nlvl + 1) prev) (hb : Base s p m)
    (ht : t = treeOf (s.fst p)) (hdvd : 1024 ^ t.nlvl ∣ t.adbc) (hne : t.adbc ≠ 0)
    (hok : ok → Free s.view m (t.nlvl + 2)) :
    Spec ok (appendRoot p prev u) fun u' => Grown s u' p m := by
  have hfst := hc.fst_eq hb p
  have hname : t.name ≠ allocmapName := by rw [ht]; exact hb.name
  have htree : t.Ok s.view := by rw [ht]; exact hb.ok
  have hsmall : 32768 * m < 2 ^ 32 := by rw [← hb.blocks]; exact hb.map.small
  simp only [appendRoot, hfst, Option.bind_eq_bind]
  refine (hc.getFreeBlock_spec hb hok).bind fun r hr => ?_
  obtain ⟨y, hy, hfree⟩ := hr
  have hfop : t.fop < 2 ^ 32 := by rw [ht]; exact ptrAt_lt _ _
  obtain ⟨u₁, u₂, hadd, hext₁, hedit, hext, hgrown⟩ :=
    hc.ok_root htree hsmall hname hfop hdvd hne hy hfree
  have hkey : (⟨Fst.name (s.fst p), Fst.nlvl (s.fst p) + 1, 0⟩ : BlockKey) =
      ⟨t.name, t.nlvl + 1, 0⟩ := by rw [ht]; rfl
  have hfst₁ : Fst.fop (u₁.fst p) = t.fop := by
    rw [hext₁.fst_eq hb.directory id, ht]
    rfl
  rw [hkey, hadd, Option.bind_some, hfst₁, hedit, Option.bind_some]
  have hadbc : Fst.adbc (s.fst p) < 2 ^ 20 := hb.adbc
  have hnlvl : Fst.nlvl (s.fst p) ≤ 2 := hb.ok.nlvl_le hadbc.le
  have htree' : treeOf (Fst.setAdbc (Fst.setNlvl (Fst.setFop (s.fst p) r.1)
      (Fst.nlvl (s.fst p) + 1)) (Fst.adbc (s.fst p) + 1)) =
        ⟨t.name, t.adbc + 1, t.nlvl + 1, r.1⟩ := by
    rw [treeOf_root hadbc (by omega) (by rw [hfree.lba]; omega), ht]
    rfl
  refine Spec.ret (hext.grown hb (by rw [ht]; exact le_rfl) (oneMore_root r.1) ?_ ?_ ?_)
  · rw [htree']
    exact hgrown
  · rw [htree']
    intro key hkey
    rw [t.has_succ_iff]
    rcases hkey with ⟨l, hl, rfl⟩ | rfl
    · exact Or.inr ⟨l, hl.le, (pow_dvd_pow 1024 (by omega)).trans hdvd, rfl⟩
    · refine Or.inl ⟨rfl, le_rfl, ?_⟩
      show 0 * 1024 ^ (t.nlvl + 1) < t.adbc
      omega
  · exact fun key hch => hch.elim

/-- A pointer block that has room. -/
theorem Climb.found_spec {ok : Prop} {l : ℕ} (hc : Climb s u t m (l + 1) prev) (hb : Base s p m)
    (ht : t = treeOf (s.fst p)) (hl : l + 1 ≤ t.nlvl) (hdvd : 1024 ^ l ∣ t.adbc)
    (hnot : ¬ 1024 ^ (l + 1) ∣ t.adbc) :
    Spec ok ((u.edit (t.path (l + 1)) true fun buf =>
        setPtrAt buf (t.adbc / 1024 ^ l % 1024) prev).bind fun w =>
      some (w.setFst p fun fst => Fst.setAdbc fst (Fst.adbc fst + 1)))
      fun u' => Grown s u' p m := by
  have hname : t.name ≠ allocmapName := by rw [ht]; exact hb.name
  have htree : t.Ok s.view := by rw [ht]; exact hb.ok
  have hsmall : 32768 * m < 2 ^ 32 := by rw [← hb.blocks]; exact hb.map.small
  obtain ⟨lba, hlba, hne⟩ := htree.present _ ((Tree.has_path_iff hl).2 hnot)
  obtain ⟨w, hedit, hview, hext⟩ := (hc.ext.changing (· = t.path (l + 1))
    fun _ h => h.elim).edit (hc.ext.lba_old hlba) hne (Or.inr rfl) hname
      fun buf => setPtrAt buf (t.adbc / 1024 ^ l % 1024) prev
  rw [hedit, Option.bind_some]
  have htree' : treeOf (Fst.setAdbc (s.fst p) (Fst.adbc (s.fst p) + 1)) =
      ⟨t.name, t.adbc + 1, t.nlvl, t.fop⟩ := by
    rw [treeOf_more hb.adbc, ht]
    rfl
  refine Spec.ret (hext.grown hb ?_ oneMore_adbc ?_ ?_ ?_)
  · have : t.nlvl = Fst.nlvl (s.fst p) := by rw [ht]; rfl
    omega
  · rw [htree', hview]
    exact hc.ok_found htree hsmall hname hl hdvd hnot
  · rw [htree']
    rintro key ⟨l', hl', rfl⟩
    rw [t.has_succ_iff]
    exact Or.inr ⟨l', by omega, (pow_dvd_pow 1024 (by omega)).trans hdvd, rfl⟩
  · rw [htree']
    rintro key rfl
    refine ⟨?_, Nat.succ_ne_zero l⟩
    rw [t.has_succ_iff]
    exact Or.inl ((Tree.has_path_iff hl).2 hnot)

/-- **The loop of `__append_block`.** -/
theorem Climb.appendLevels_spec {ok : Prop} {n : ℕ} (hc : Climb s u t m lvl prev) (hb : Base s p m)
    (ht : t = treeOf (s.fst p)) (hlvl : lvl + n = t.nlvl + 1)
    (hdvd : ∀ l < lvl, 1024 ^ l ∣ t.adbc) (hne : t.adbc ≠ 0)
    (hok : ok → Free s.view m (t.nlvl + 2)) :
    Spec ok (appendLevels p n lvl prev u) fun u' => Grown s u' p m := by
  have hname : t.name ≠ allocmapName := by rw [ht]; exact hb.name
  have htree : t.Ok s.view := by rw [ht]; exact hb.ok
  have hgrows : t.Grows s.view := by rw [ht]; exact hb.grows
  have hsmall : 32768 * m < 2 ^ 32 := by rw [← hb.blocks]; exact hb.map.small
  induction n generalizing u lvl prev with
  | zero =>
    obtain rfl : lvl = t.nlvl + 1 := hlvl
    exact hc.appendRoot_spec hb ht (hdvd t.nlvl (Nat.lt_succ_self _)) hne hok
  | succ n ih =>
    simp only [appendLevels, hc.fst_eq hb p, Option.bind_eq_bind]
    rw [hb.key_eq ht (by omega)]
    cases hfind : u.blockMapFind (t.path lvl) with
    | some map =>
      -- the next data block begins no block of this level
      have hfound : s.view.lba (t.path lvl) ≠ none := by
        rw [← hc.ext.lba_other _ (Climb.not_new t le_rfl), view_lba, hfind]
        exact Option.some_ne_none _
      have hnot : ¬ 1024 ^ lvl ∣ t.adbc := fun hd => hfound (hgrows.absent lvl (by omega) hd)
      obtain ⟨l, rfl⟩ : ∃ l, lvl = l + 1 := Nat.exists_eq_succ_of_ne_zero fun hzero =>
        hnot (by rw [hzero, pow_zero]; exact one_dvd _)
      have hdvd' : 1024 ^ l ∣ t.adbc := hdvd l (Nat.lt_succ_self l)
      have hslot : t.adbc / 1024 ^ l % 1024 ≠ 1023 := fun hlast =>
        hgrows.slot ⟨l, by omega, hdvd', hlast⟩
      have hblocks : fileBlocksAtLevel (Fst.adbc (s.fst p) + 1) l = t.adbc / 1024 ^ l + 1 := by
        have hadbc : t.adbc < 2 ^ 20 := by rw [ht]; exact hb.adbc
        have hpow := htree.pow_le hadbc.le (show l ≤ t.nlvl by omega)
        rw [show Fst.adbc (s.fst p) = t.adbc by rw [ht]; rfl, fileBlocksAtLevel_succ (by omega)]
      have hx : (t.adbc / 1024 ^ l + 1) % 1024 = t.adbc / 1024 ^ l % 1024 + 1 := by omega
      dsimp only
      rw [if_neg (Nat.succ_ne_zero l), Nat.add_sub_cancel, hblocks, hx,
        decide_eq_true (Nat.succ_ne_zero _), Nat.add_sub_cancel]
      simp only [if_neg (Nat.succ_ne_zero _)]
      exact hc.found_spec hb ht (by omega) hdvd' hnot
    | none =>
      have hlba : u.view.lba (t.path lvl) = none := by rw [view_lba, hfind, Option.map_none]
      have habsent : s.view.lba (t.path lvl) = none := by
        rw [← hc.ext.lba_other _ (Climb.not_new t le_rfl), hlba]
      have hdvd' : 1024 ^ lvl ∣ t.adbc := (hgrows.absent_iff htree (by omega)).1 habsent
      refine (hc.getFreeBlock_spec hb fun h => (hok h).mono (by omega)).bind fun r hr => ?_
      obtain ⟨y, hy, hfree⟩ := hr
      obtain ⟨u₁, u₂, hadd, hlink, hnext⟩ :=
        hc.step hsmall hname hb.directory habsent hy hfree
      have hnext' : Spec ok (appendLevels p n (lvl + 1) r.1 u₂) fun u' => Grown s u' p m := by
        refine ih hnext (by omega) fun l hl => ?_
        rcases Nat.lt_succ_iff_lt_or_eq.1 hl with hlt | rfl
        · exact hdvd l hlt
        · exact hdvd'
      rw [hadd, Option.bind_some]
      by_cases hzero : lvl = 0
      · rw [if_pos hzero, Option.some.injEq] at hlink
        rwa [if_pos hzero, hlink, Option.bind_some]
      · rw [if_neg hzero] at hlink
        rwa [if_neg hzero, hlink, Option.bind_some]

/-- **`__append_block` adds a block** to a file that has some, if there are free blocks for
it and for a block of each level above. -/
theorem appendBlock_spec {ok : Prop} (hb : Base s p m) (hne : Fst.adbc (s.fst p) ≠ 0)
    (hok : ok → Free s.view m (Fst.nlvl (s.fst p) + 2)) :
    Spec ok (s.appendBlock p) fun u => Grown s u p m := by
  rw [appendBlock, if_neg hne]
  exact (Climb.start hb.sound).appendLevels_spec hb rfl (Nat.zero_add _)
    (fun l hl => absurd hl (Nat.not_lt_zero l)) hne hok

/-! ### The first block of a file -/

/-- Listing a block does not look at the caller's entries. -/
theorem blockMapAdd_fsts (s : Loader) (fsts : ℕ → DiskBlock) (key : BlockKey) (lba : ℕ) :
    blockMapAdd { s with fsts := fsts } key lba =
      (s.blockMapAdd key lba).map fun u => { u with fsts := fsts } := by
  have hfind : blockMapFind { s with fsts := fsts } key = s.blockMapFind key := rfl
  rw [blockMapAdd, blockMapAdd, hfind]
  cases s.blockMapFind key with
  | none => rfl
  | some map =>
    dsimp only
    split
    · rfl
    · rfl

/-- What `__append_block` makes of the FST of a file that has no blocks. -/
def firstBlock (lba : ℕ) (fst : DiskBlock) : DiskBlock :=
  Fst.setFop (Fst.setNlvl (Fst.setAdbc fst (Fst.adbc fst + 1)) 0) lba

/-- The first data block of a file is such a change of its entry. -/
theorem oneMore_firstBlock (lba : ℕ) : OneMore (firstBlock lba) where
  fst buf i hi := by
    rw [firstBlock, Fst.setFop, setPtrAt_of_lt _ _ (by omega), Fst.setNlvl_of_ne _ _ (by omega),
      Fst.setAdbc, setPtrAt_of_lt _ _ (by omega)]
  same buf := sameFile_of_bytes fun i hi => by
    rw [firstBlock, Fst.setFop, Fst.setPtrAt_bytes _ _ (by decide) hi,
      Fst.setNlvl_of_ne _ _ (by omega), Fst.setAdbc, Fst.setPtrAt_bytes _ _ (by decide) hi]
  aic buf := by
    rw [Fst.aic, firstBlock, Fst.setFop, ptrAt_setPtrAt_of_ne _ _ (by decide),
      Fst.ptrAt_setNlvl _ _ (by decide), Fst.setAdbc, ptrAt_setPtrAt_of_ne _ _ (by decide), Fst.aic]
  adbc buf hlt := by
    rw [Fst.adbc, firstBlock, Fst.setFop, ptrAt_setPtrAt_of_ne _ _ (by decide),
      Fst.ptrAt_setNlvl _ _ (by decide), Fst.setAdbc, ptrAt_setPtrAt_self _ _ (by omega)]

/-- A file with its first block is that block and no pointer level. -/
theorem treeOf_firstBlock {fst : DiskBlock} (hadbc : Fst.adbc fst = 0) {lba : ℕ}
    (hlba : lba < 2 ^ 32) : treeOf (firstBlock lba fst) = ⟨Fst.name fst, 1, 0, lba⟩ := by
  rw [treeOf, Tree.mk.injEq]
  refine ⟨((oneMore_firstBlock lba).same fst).name, ?_, ?_, ?_⟩
  · rw [(oneMore_firstBlock lba).adbc fst (by omega), hadbc]
  · rw [firstBlock, Fst.setFop, Fst.nlvl_setPtrAt _ _ (by decide), Fst.nlvl_setNlvl _ (by decide)]
  · exact ptrAt_setPtrAt_self _ _ hlba

/-- A file of one block. -/
theorem Tree.ok_one {v : View} {name : FileName} {lba : ℕ} (hlba : v.lba ⟨name, 0, 0⟩ = some lba)
    (hne : lba ≠ 0) (htop : ∀ l i, 0 < l → v.lba ⟨name, l, i⟩ = none) :
    (Tree.mk name 1 0 lba).Ok v where
  height := le_rfl
  least h := absurd rfl h
  present key hkey := by
    obtain ⟨name', level, blkNo⟩ := key
    obtain ⟨rfl, hlevel, hlt⟩ := hkey
    dsimp only at hlevel hlt
    obtain rfl := Nat.le_zero.1 hlevel
    obtain rfl : blkNo = 0 := by omega
    exact ⟨lba, hlba, hne⟩
  top l i hl := htop l i hl
  root _ := hlba
  child l i _ hl := absurd hl (Nat.not_lt_zero l)

/-- **`__append_block` gives a file its first block.** -/
theorem appendBlock_first {ok : Prop} {i : ℕ} (hb : Base s (.caller i) m)
    (hzero : Fst.adbc (s.fsts i) = 0) (hok : ok → Free s.view m 1) :
    Spec ok (s.appendBlock (.caller i)) fun u => Grown s u (.caller i) m := by
  set t := treeOf (s.fsts i) with ht
  have htree : t.Ok s.view := hb.ok
  have hnlvl : t.nlvl = 0 := by
    by_contra hne
    have hleast := htree.least hne
    rw [show t.adbc = 0 from hzero] at hleast
    exact Nat.not_lt_zero _ hleast
  have hpath : t.path 0 = ⟨Fst.name (s.fsts i), 0, 0⟩ := by
    rw [Tree.path, show t.adbc = 0 from hzero, Nat.zero_div]
    rfl
  have habsent : s.view.lba ⟨Fst.name (s.fsts i), 0, 0⟩ = none := by
    rw [← hpath]
    exact hb.grows.absent 0 (Nat.zero_le _) (one_dvd _)
  have hname : Fst.name (s.fsts i) ≠ allocmapName := hb.name
  have hdir : (⟨Fst.name (s.fsts i), 0, 0⟩ : BlockKey) ≠ dirKey := fun heq =>
    hb.directory (heq ▸ habsent)
  have hsmall : 32768 * m < 2 ^ 32 := by rw [← hb.blocks]; exact hb.map.small
  rw [appendBlock, fst_caller, if_pos hzero]
  dsimp only [setFst, Option.bind_eq_bind]
  set s₁ : Loader :=
    { s with fsts := Function.update s.fsts i (Fst.setNlvl (Fst.setAdbc (s.fsts i) 1) 0) }
  have hblocks : Fst.adbc (s₁.fst .allocmap) = m := hb.blocks
  have hsound₁ : Sound s₁ := ⟨hb.sound.keys, hb.sound.dirty, hb.sound.clean, hb.sound.directory⟩
  have hget : Spec ok s₁.getFreeBlock fun r => ∃ y < 32768 * Fst.adbc (s₁.fst .allocmap),
      FreeBlock s₁ r y :=
    getFreeBlock_spec hsound₁ ⟨hb.map.name, hb.map.small, hb.map.blocks⟩ fun h => by
      rw [hblocks]
      exact (hok h).exists_clear
  rw [hblocks] at hget
  refine hget.bind fun r hr => ?_
  obtain ⟨y, hy, hfree⟩ := hr
  obtain ⟨bm, hrest⟩ := hfree.rest
  -- the list is as if the FST had not been changed before
  have hsound : Sound { s with blockMap := bm } := by
    have h := hfree.sound
    rw [hrest] at h
    exact ⟨h.keys, h.dirty, h.clean, h.directory⟩
  have hfree' : FreeBlock s (r.1, { s with blockMap := bm }) y :=
    ⟨hfree.lba, hfree.clear, ⟨bm, rfl⟩, by
      rw [show view (r.1, { s with blockMap := bm }).2 = r.2.view by rw [hrest]; rfl, hfree.view]
      rfl, hsound⟩
  obtain ⟨u, hadd, hlba, hother, -, hext⟩ :=
    (Extends.refl hb.sound m fun _ => False).take hy hfree' habsent id hname hdir
  have hlbaSmall : r.1 < 2 ^ 32 := by rw [hfree.lba]; omega
  have htree' : treeOf (firstBlock r.1 (s.fsts i)) = ⟨Fst.name (s.fsts i), 1, 0, r.1⟩ :=
    treeOf_firstBlock hzero hlbaSmall
  have hgrown : Grown s (u.setFst (.caller i) (firstBlock r.1)) (.caller i) m := by
    refine hext.grown hb (by omega) (oneMore_firstBlock r.1) ?_ ?_ ?_
    · rw [fst_caller, htree']
      refine Tree.ok_one hlba (by rw [hfree.lba]; omega) fun l j hl => ?_
      rw [hother _ fun heq => Nat.ne_of_gt hl (congrArg BlockKey.level heq)]
      exact htree.top l j (by omega)
    · rw [fst_caller, htree']
      rintro key (h | rfl)
      · exact h.elim
      · exact ⟨rfl, le_rfl, by show 0 * 1024 ^ 0 < 1; norm_num⟩
    · exact fun key h => h.elim
  obtain ⟨bm', hu⟩ := hext.rest
  set fsts := Function.update s.fsts i (firstBlock r.1 (s.fsts i)) with hfsts
  have hcall : blockMapAdd { s with blockMap := bm, fsts := fsts } ⟨Fst.name (s.fsts i), 0, 0⟩
      r.1 = some (u.setFst (.caller i) (firstBlock r.1)) := by
    have h := blockMapAdd_fsts { s with blockMap := bm } fsts ⟨Fst.name (s.fsts i), 0, 0⟩ r.1
    rw [show blockMapAdd { s with blockMap := bm } ⟨Fst.name (s.fsts i), 0, 0⟩ r.1 = some u from
      hadd, Option.map_some] at h
    rw [h, hu]
    rfl
  have hself : s₁.fsts i = Fst.setNlvl (Fst.setAdbc (s.fsts i) 1) 0 :=
    Function.update_self i _ s.fsts
  have hupdate : Function.update s₁.fsts i (Fst.setFop (s₁.fsts i) r.1) = fsts := by
    rw [hself, hfsts, firstBlock, hzero]
    exact Function.update_idem _ _ _
  rw [hrest]
  dsimp only [fst_caller]
  rw [hupdate, hfsts, Function.update_self, ((oneMore_firstBlock r.1).same (s.fsts i)).name,
    ← hfsts]
  exact (congrArg (Spec ok · _) hcall).mpr hgrown

/-- **`__append_block`.**  The directory has a block from the start. -/
theorem appendBlock_grows {ok : Prop} (hb : Base s p m)
    (hdir : p = .directory → Fst.adbc (s.fst p) ≠ 0)
    (hok : ok → Free s.view m (Fst.nlvl (s.fst p) + 2)) :
    Spec ok (s.appendBlock p) fun u => Grown s u p m := by
  by_cases hzero : Fst.adbc (s.fst p) = 0
  · cases p with
    | directory => exact absurd hzero (hdir rfl)
    | allocmap => exact absurd rfl hb.ptr
    | caller i => exact appendBlock_first hb hzero fun h => (hok h).mono (by omega)
  · exact appendBlock_spec hb hzero hok

end

end Hvf
