/-
# The files of a volume

The files that the loader knows are trees over blocks of their own (`Forest`): each block
of one is at a place that the allocation map has marked, no two are at one place, and none
is where a block of a file is that the loader does not know (`kept`).  What is to be
written back is a block of one of them.

This is kept when a file grows (`Forest.grow`), when data blocks are written
(`Forest.wrote`) and when a file is created (`Forest.new`).
-/

import Hvf.Installer.EdfDirectory
import Hvf.Installer.EdfGrow

namespace Hvf

open Loader Outcome

/-- A block of one of the files. -/
def Used (live : ℕ → Prop) (tr : ℕ → Tree) (key : BlockKey) : Prop := ∃ k, live k ∧ (tr k).Has key

/-- `live` are the files that the loader knows, by their entries in the directory; 0 is the
directory and 1 the allocation map. -/
structure Forest (v : View) (live : ℕ → Prop) (tr : ℕ → Tree) (kept : ℕ → Prop) : Prop where
  map : live 1
  tree : ∀ k, live k → (tr k).Ok v
  names : ∀ k k', live k → live k' → (tr k).name = (tr k').name → k = k'
  place : ∀ key, Used live tr key → ∃ lba, v.lba key = some lba ∧ lba ≠ 0 ∧
    v.bit (lba - 1) = true ∧ ¬ kept lba ∧ lba - 1 < 32768 * (tr 1).adbc
  inj : ∀ key key', Used live tr key → Used live tr key' → v.lba key = v.lba key' → key = key'
  marked : ∀ lba, kept lba → v.bit (lba - 1) = true
  dirty : ∀ key, v.dirty key = true → Used live tr key
  listed : ∀ key, v.lba key ≠ none → ∃ k, live k ∧ key.name = (tr k).name
  own : ∀ k key, live k → 2 ≤ k → key.name = (tr k).name → v.lba key ≠ none → (tr k).Has key

/-- **Blocks are written, and the FST `p` if that is one of a caller**; no block is added to
the list. -/
structure Wrote (p : FstPtr) (wrote : BlockKey → Prop) (s u : Loader) : Prop where
  disk : u.disk = s.disk
  nfst : u.nfst = s.nfst
  stray : u.stray = s.stray
  fsts : ∀ i, p ≠ .caller i → u.fsts i = s.fsts i
  sound : Sound u
  lba : u.view.lba = s.view.lba
  content : ∀ key, ¬ wrote key → u.view.content key = s.view.content key
  dirty : ∀ key, u.view.dirty key = true → s.view.dirty key = true ∨ wrote key
  dirtied : ∀ key, s.view.dirty key = true → u.view.dirty key = true

namespace Wrote

variable {p : FstPtr} {wrote wrote' touched : BlockKey → Prop} {s u w : Loader}

/-- No write wrote nothing. -/
theorem refl (hs : Sound s) : Wrote p wrote s s :=
  ⟨rfl, rfl, rfl, fun _ _ => rfl, hs, rfl, fun _ _ => rfl, fun _ h => Or.inl h, fun _ h => h⟩

/-- What two steps wrote, they wrote together. -/
theorem trans (h : Wrote p wrote s u) (h' : Wrote p wrote u w) : Wrote p wrote s w where
  disk := h'.disk.trans h.disk
  nfst := h'.nfst.trans h.nfst
  stray := h'.stray.trans h.stray
  fsts i hi := (h'.fsts i hi).trans (h.fsts i hi)
  sound := h'.sound
  lba := h'.lba.trans h.lba
  content key hnot := (h'.content key hnot).trans (h.content key hnot)
  dirty key hdirty := (h'.dirty key hdirty).elim (h.dirty key) Or.inr
  dirtied key hdirty := h'.dirtied key (h.dirtied key hdirty)

/-- What was written within some keys was written within more. -/
theorem mono (h : Wrote p wrote s u) (hsub : ∀ key, wrote key → wrote' key) :
    Wrote p wrote' s u :=
  { h with
    content := fun key hnot => h.content key fun hw => hnot (hsub key hw)
    dirty := fun key hdirty => (h.dirty key hdirty).imp_right (hsub key) }

/-- A write into blocks moves no entry, whichever one is looked at. -/
theorem anyFst (h : Wrote .directory wrote s u) (p : FstPtr) : Wrote p wrote s u :=
  { h with fsts := fun i _ => h.fsts i fun heq => by cases heq }

/-- One block is written. -/
theorem of_edit (ht : Touches .directory touched s u) {key : BlockKey}
    {f : DiskBlock → DiskBlock} (hview : u.view = s.view.edit key f) (hkey : wrote key) :
    Wrote .directory wrote s u where
  disk := ht.disk
  nfst := ht.nfst
  stray := ht.stray
  fsts := ht.fsts
  sound := ht.sound
  lba := by rw [hview, View.edit_lba]
  content key' hnot := by
    rw [hview, View.edit_content, if_neg fun heq : key' = key => hnot (heq ▸ hkey)]
  dirty key' hdirty := by
    rw [hview, View.edit_dirty] at hdirty
    split at hdirty
    · rename_i heq
      exact Or.inr (heq ▸ hkey)
    · exact Or.inl hdirty
  dirtied key' hdirty := by
    rw [hview, View.edit_dirty]
    split
    · rfl
    · exact hdirty

/-- A change of the caller's entry writes no block. -/
theorem of_setFst_caller (hs : Sound s) (i : ℕ) (f : DiskBlock → DiskBlock) :
    Wrote (.caller i) wrote s (s.setFst (.caller i) f) where
  disk := rfl
  nfst := rfl
  stray := rfl
  fsts j hj := Function.update_of_ne (fun heq => hj (by rw [heq])) _ _
  sound := ⟨hs.keys, hs.dirty, hs.clean, hs.directory⟩
  lba := rfl
  content _ _ := rfl
  dirty _ h := Or.inl h
  dirtied _ h := h

/-- A change of the directory's own entry writes the block it is in. -/
theorem of_setFst_directory (hs : Sound s) (hdir : s.view.lba dirKey ≠ none)
    {f : DiskBlock → DiskBlock} (hf : FstChange f) (hkey : wrote dirKey) :
    Wrote .directory wrote s (s.setFst .directory f) := by
  obtain ⟨hview, ht⟩ := touches_setFst_directory hs hdir hf
  refine ⟨ht.disk, ht.nfst, ht.stray, ht.fsts, ht.sound, ?_, fun key hnot => ?_, fun key h => ?_,
    fun key h => ?_⟩
  · rw [hview, View.poke_lba]
  · rw [hview, View.poke_content, if_neg fun heq : key = dirKey => hnot (heq ▸ hkey)]
  · rw [hview, View.poke_dirty] at h
    exact Or.inl h
  · rw [hview, View.poke_dirty, h]

end Wrote

/-- A block that a file has had before it grew. -/
theorem Grown.has_old {s u : Loader} {p : FstPtr} {m : ℕ} (hg : Grown s u p m) (hb : Base s p m)
    {key : BlockKey} (hkey : (treeOf (u.fst p)).Has key) (hlba : s.view.lba key ≠ none) :
    (treeOf (s.fst p)).Has key := by
  set t := treeOf (s.fst p)
  set t' := treeOf (u.fst p)
  have hname : t'.name = t.name := hg.same.name
  have hadbc : t'.adbc = t.adbc + 1 := hg.adbc
  have hlevel : key.level ≤ t.nlvl := by
    by_contra hhigh
    obtain ⟨name, level, blkNo⟩ := key
    obtain rfl : name = t.name := hkey.1.trans hname
    exact hlba (hb.ok.top level blkNo (lt_of_not_ge hhigh))
  refine ⟨hkey.1.trans hname, hlevel, ?_⟩
  have hhas : (Tree.mk t.name (t.adbc + 1) t'.nlvl t'.fop).Has key := by
    rw [← hname, ← hadbc]
    exact hkey
  rcases (t.has_succ_iff _ _ key).1 hhas with ⟨-, -, hlt⟩ | ⟨l, -, hdvd, rfl⟩
  · exact hlt
  · exact absurd (hb.grows.absent l hlevel hdvd) hlba

namespace Forest

variable {v v' : View} {live live' : ℕ → Prop} {tr tr' : ℕ → Tree} {kept : ℕ → Prop}
  {s u : Loader} {p : FstPtr} {m : ℕ}

/-- Which blocks are used depends on the trees of the files in use. -/
theorem used_congr (htr : ∀ k, live k → tr' k = tr k) {key : BlockKey} :
    Used live tr' key ↔ Used live tr key := by
  refine exists_congr fun k => and_congr_right fun hk => ?_
  rw [htr k hk]

/-- So does whether the trees are a forest. -/
theorem congr (h : Forest v live tr kept) (htr : ∀ k, live k → tr' k = tr k) :
    Forest v live tr' kept where
  map := h.map
  tree k hk := by
    rw [htr k hk]
    exact h.tree k hk
  names k k' hk hk' := by
    rw [htr k hk, htr k' hk']
    exact h.names k k' hk hk'
  place key hkey := by
    rw [htr 1 h.map]
    exact h.place key ((used_congr htr).1 hkey)
  inj key key' hkey hkey' := h.inj key key' ((used_congr htr).1 hkey) ((used_congr htr).1 hkey')
  marked := h.marked
  dirty key hdirty := (used_congr htr).2 (h.dirty key hdirty)
  listed key hkey := by
    obtain ⟨k, hk, hname⟩ := h.listed key hkey
    exact ⟨k, hk, by rw [htr k hk, hname]⟩
  own k key hk := by
    rw [htr k hk]
    exact h.own k key hk

/-- **Data blocks are written.** -/
theorem wrote (h : Forest s.view live tr kept) {wrote : BlockKey → Prop} (hw : Wrote p wrote s u)
    (hdata : ∀ key, wrote key → Used live tr key ∧ key.level = 0 ∧ key.name ≠ allocmapName) :
    Forest u.view live tr kept := by
  have hbit : ∀ y, u.view.bit y = s.view.bit y := fun y =>
    View.bit_congr (hw.content _ fun hkey => (hdata _ hkey).2.2 rfl)
  constructor
  case map => exact h.map
  case tree =>
    intro k hk
    refine (h.tree k hk).congr (fun l i => by rw [hw.lba]) fun key _ hlevel => ?_
    exact hw.content key fun hkey => hlevel (hdata key hkey).2.1
  case names => exact h.names
  case place =>
    intro key hkey
    obtain ⟨lba, hlba, hne, hset, hrest⟩ := h.place key hkey
    exact ⟨lba, by rw [hw.lba, hlba], hne, by rw [hbit, hset], hrest⟩
  case inj =>
    rw [hw.lba]
    exact h.inj
  case marked =>
    intro lba hlba
    rw [hbit, h.marked lba hlba]
  case dirty =>
    intro key hdirty
    rcases hw.dirty key hdirty with hold | hkey
    · exact h.dirty key hold
    · exact (hdata key hkey).1
  case listed =>
    rw [hw.lba]
    exact h.listed
  case own =>
    rw [hw.lba]
    exact h.own

/-- **A file is created**; it has no blocks yet. -/
theorem new (h : Forest v live tr kept) {n : ℕ} (hn : ¬ live n) {name : FileName} (fop : ℕ)
    (hname : ∀ k, live k → (tr k).name ≠ name) :
    Forest v (fun k => live k ∨ k = n) (Function.update tr n ⟨name, 0, 0, fop⟩) kept := by
  have hold : ∀ k, live k → Function.update tr n ⟨name, 0, 0, fop⟩ k = tr k := fun k hk =>
    Function.update_of_ne (fun heq : k = n => hn (heq ▸ hk)) _ _
  have hself : Function.update tr n ⟨name, 0, 0, fop⟩ n = ⟨name, 0, 0, fop⟩ :=
    Function.update_self ..
  have hnone : ∀ key : BlockKey, key.name = name → v.lba key = none := by
    intro key hkey
    by_contra hsome
    obtain ⟨k, hk, hk'⟩ := h.listed key hsome
    exact hname k hk (hk'.symm.trans hkey)
  have hused : ∀ key, Used (fun k => live k ∨ k = n)
      (Function.update tr n ⟨name, 0, 0, fop⟩) key ↔ Used live tr key := by
    intro key
    constructor
    · rintro ⟨k, hk | rfl, hhas⟩
      · exact ⟨k, hk, hold k hk ▸ hhas⟩
      · rw [hself] at hhas
        exact absurd hhas.2.2 (Nat.not_lt_zero _)
    · rintro ⟨k, hk, hhas⟩
      exact ⟨k, Or.inl hk, (hold k hk).symm ▸ hhas⟩
  constructor
  case map => exact Or.inl h.map
  case tree =>
    rintro k (hk | rfl)
    · rw [hold k hk]
      exact h.tree k hk
    · rw [hself]
      exact
        { height := Nat.zero_le _
          least := fun hne => absurd rfl hne
          present := fun key hkey => absurd hkey.2.2 (Nat.not_lt_zero _)
          top := fun l i _ => hnone _ rfl
          root := fun hne => absurd rfl hne
          child := fun l i hkey _ => absurd hkey.2.2 (Nat.not_lt_zero _) }
  case names =>
    rintro k k' (hk | rfl) (hk' | rfl) heq
    · rw [hold k hk, hold k' hk'] at heq
      exact h.names k k' hk hk' heq
    · rw [hold k hk, hself] at heq
      exact absurd heq (hname k hk)
    · rw [hold k' hk', hself] at heq
      exact absurd heq.symm (hname k' hk')
    · rfl
  case place =>
    rw [hold 1 h.map]
    exact fun key hkey => h.place key ((hused key).1 hkey)
  case inj =>
    exact fun key key' hkey hkey' => h.inj key key' ((hused key).1 hkey) ((hused key').1 hkey')
  case marked => exact h.marked
  case dirty => exact fun key hdirty => (hused key).2 (h.dirty key hdirty)
  case listed =>
    intro key hkey
    obtain ⟨k, hk, hkname⟩ := h.listed key hkey
    exact ⟨k, Or.inl hk, by rw [hold k hk, hkname]⟩
  case own =>
    rintro k key (hk | rfl) htwo hkname hkey
    · rw [hold k hk] at hkname ⊢
      exact h.own k key hk htwo hkname hkey
    · rw [hself] at hkname
      exact absurd (hnone key hkname) hkey

/-- **A file grows.** -/
theorem grow (h : Forest s.view live tr kept) (hb : Base s p m) (hg : Grown s u p m) {k : ℕ}
    (hk : live k) (htr : tr k = treeOf (s.fst p)) (hmap : tr 1 = treeOf (s.fst .allocmap)) :
    Forest u.view live (Function.update tr k (treeOf (u.fst p))) kept := by
  set t' := treeOf (u.fst p)
  have hself : Function.update tr k t' k = t' := Function.update_self ..
  have hother : ∀ k', k' ≠ k → Function.update tr k t' k' = tr k' := fun k' hne =>
    Function.update_of_ne hne _ _
  have hname : t'.name = (tr k).name := by
    rw [htr]
    exact hg.same.name
  have hnames : ∀ k', (Function.update tr k t' k').name = (tr k').name := by
    intro k'
    by_cases hkk : k' = k
    · rw [hkk, hself, hname]
    · rw [hother k' hkk]
  have hgrow : ∀ key, (tr k).Has key → t'.Has key := fun key hkey =>
    hkey.mono (h.tree k hk) hg.tree hname (by
      rw [htr]
      exact (Nat.le_succ _).trans_eq hg.adbc.symm)
  have hneMap : k ≠ 1 := by
    rintro rfl
    rw [hmap] at htr
    refine hb.name ?_
    rw [← hb.map.name]
    exact (congrArg Tree.name htr).symm
  have hmapKey : ∀ key, MapBlock m key → (tr 1).Has key := by
    rintro ⟨name, level, blkNo⟩ ⟨hkname, hlevel, hblk⟩
    dsimp only at hkname hlevel hblk
    subst hkname hlevel
    rw [hmap]
    refine ⟨hb.map.name.symm, Nat.zero_le _, ?_⟩
    show blkNo * 1024 ^ 0 < Fst.adbc (s.fst .allocmap)
    rwa [pow_zero, Nat.mul_one, hb.blocks]
  have hmore : ∀ k' key, (tr k').Has key → (Function.update tr k t' k').Has key := by
    intro k' key hkey
    by_cases hkk : k' = k
    · rw [hkk] at hkey ⊢
      rw [hself]
      exact hgrow key hkey
    · rwa [hother k' hkk]
  have hused : ∀ key, Used live tr key → Used live (Function.update tr k t') key := by
    rintro key ⟨k', hk', hkey⟩
    exact ⟨k', hk', hmore k' key hkey⟩
  have hold : ∀ key, Used live (Function.update tr k t') key → s.view.lba key ≠ none →
      Used live tr key := by
    rintro key ⟨k', hk', hkey⟩ hlba
    by_cases hkk : k' = k
    · rw [hkk, hself] at hkey
      rw [hkk] at hk'
      exact ⟨k, hk', htr ▸ hg.has_old hb hkey hlba⟩
    · rw [hother k' hkk] at hkey
      exact ⟨k', hk', hkey⟩
  have hnew : ∀ key, Used live (Function.update tr k t') key → s.view.lba key = none →
      t'.Has key := by
    rintro key ⟨k', hk', hkey⟩ hnone
    by_cases hkk : k' = k
    · rwa [hkk, hself] at hkey
    · rw [hother k' hkk] at hkey
      obtain ⟨lba, hlba, -⟩ := h.place key ⟨k', hk', hkey⟩
      cases hnone.symm.trans hlba
  have hfresh : ∀ key, t'.Has key → s.view.lba key = none → ∃ lba, u.view.lba key = some lba ∧
      lba - 1 < 32768 * m ∧ s.view.bit (lba - 1) = false ∧ u.view.bit (lba - 1) = true := by
    intro key hkey hnone
    obtain ⟨lba, hlba, -⟩ := hg.tree.present key hkey
    obtain ⟨-, lba', hlba', hlt, hclear, hset⟩ := hg.fresh key hnone (by
      rw [hlba]
      exact Option.some_ne_none lba)
    exact ⟨lba', hlba', hlt, hclear, hset⟩
  constructor
  case map => exact h.map
  case tree =>
    intro k' hk'
    by_cases hkk : k' = k
    · rw [hkk, hself]
      exact hg.tree
    · -- the blocks of another file are as they were
      have hne : (tr k').name ≠ (tr k).name := fun heq => hkk (h.names k' k hk' hk heq)
      rw [hother k' hkk]
      refine (h.tree k' hk').congr (fun l i => ?_) fun key hkey hlevel => ?_
      · cases hlba : s.view.lba ⟨(tr k').name, l, i⟩ with
        | some lba => exact hg.lba_old _ lba hlba
        | none =>
          by_contra hsome
          exact hne ((hg.fresh _ hlba hsome).1.1.trans hname)
      · obtain ⟨lba, hlba, -⟩ := (h.tree k' hk').present key hkey
        funext i
        refine hg.content key i (by rw [hlba]; exact Option.some_ne_none lba) (Or.inl ?_)
          (fun hmap' => hlevel hmap'.2.1) fun heq => absurd (by rw [heq]; rfl) hlevel
        rw [hkey.1]
        rwa [htr] at hne
  case names =>
    intro k₁ k₂ h₁ h₂ heq
    rw [hnames, hnames] at heq
    exact h.names k₁ k₂ h₁ h₂ heq
  case place =>
    rw [hother 1 hneMap.symm]
    intro key hkey
    cases hlba : s.view.lba key with
    | some lba =>
      obtain ⟨lba', hlba', hne, hset, hrest⟩ :=
        h.place key (hold key hkey (by rw [hlba]; exact Option.some_ne_none lba))
      exact ⟨lba', hg.lba_old key lba' hlba', hne, hg.bits _ hset, hrest⟩
    | none =>
      have hhas := hnew key hkey hlba
      obtain ⟨lba, hlba', hlt, hclear, hset⟩ := hfresh key hhas hlba
      obtain ⟨lba', hlba'', hne⟩ := hg.tree.present key hhas
      obtain rfl := Option.some.inj (hlba'.symm.trans hlba'')
      refine ⟨lba, hlba', hne, hset, fun hkept => ?_, ?_⟩
      · cases hclear.symm.trans (h.marked lba hkept)
      · rw [hmap]
        show lba - 1 < 32768 * Fst.adbc (s.fst .allocmap)
        rwa [hb.blocks]
  case inj =>
    intro key key' hkey hkey' heq
    -- the places of the new blocks were free
    have happart : ∀ a b, Used live (Function.update tr k t') a →
        Used live (Function.update tr k t') b → s.view.lba a = none → s.view.lba b ≠ none →
          u.view.lba a ≠ u.view.lba b := by
      intro a b ha hb' hnone hsome heq
      obtain ⟨lba, hlba, -, hclear, -⟩ := hfresh a (hnew a ha hnone) hnone
      obtain ⟨lba', hlba', -, hset, -⟩ := h.place b (hold b hb' hsome)
      rw [hlba, hg.lba_old b lba' hlba'] at heq
      obtain rfl := Option.some.inj heq
      cases hclear.symm.trans hset
    by_cases hnone : s.view.lba key = none
    · by_cases hnone' : s.view.lba key' = none
      · obtain ⟨lba, hlba, -⟩ := hfresh key (hnew key hkey hnone) hnone
        exact hg.inj key key' hnone hnone' (by rw [hlba]; exact Option.some_ne_none lba) heq
      · exact absurd heq (happart key key' hkey hkey' hnone hnone')
    · by_cases hnone' : s.view.lba key' = none
      · exact absurd heq.symm (happart key' key hkey' hkey hnone' hnone)
      · obtain ⟨lba, hlba⟩ := Option.ne_none_iff_exists'.1 hnone
        obtain ⟨lba', hlba'⟩ := Option.ne_none_iff_exists'.1 hnone'
        rw [hg.lba_old key lba hlba, hg.lba_old key' lba' hlba', ← hlba, ← hlba'] at heq
        exact h.inj key key' (hold key hkey hnone) (hold key' hkey' hnone') heq
  case marked => exact fun lba hlba => hg.bits _ (h.marked lba hlba)
  case dirty =>
    intro key hdirty
    rcases hg.dirty key hdirty with hdirty' | hkey | hkey
    · exact hused key (h.dirty key hdirty')
    · exact ⟨k, hk, by rw [hself]; exact hkey⟩
    · exact hused key ⟨1, h.map, hmapKey key hkey⟩
  case listed =>
    intro key hkey
    cases hlba : s.view.lba key with
    | some lba =>
      obtain ⟨k', hk', hkname⟩ := h.listed key (by rw [hlba]; exact Option.some_ne_none lba)
      exact ⟨k', hk', by rw [hnames, hkname]⟩
    | none => exact ⟨k, hk, by rw [hself]; exact (hg.fresh key hlba hkey).1.1⟩
  case own =>
    intro k' key hk' htwo hkname hkey
    rw [hnames] at hkname
    cases hlba : s.view.lba key with
    | some lba =>
      exact hmore k' key (h.own k' key hk' htwo hkname (by
        rw [hlba]
        exact Option.some_ne_none lba))
    | none =>
      have hhas := (hg.fresh key hlba hkey).1
      obtain rfl : k' = k := h.names k' k hk' hk (hkname.symm.trans (hhas.1.trans hname))
      rw [hself]
      exact hhas

end Forest

end Hvf
