/-
# Blocks that are added

`Extends s u m new changed c` says that `u` is `s` with the blocks `new`, which
are `c` blocks that were free, and with other contents of the blocks `changed`.
It is kept when `__get_free_block` and `block_map_add` add a block (`Extends.take`)
and when one of these blocks is written (`Extends.edit`).
-/

import Hvf.Installer.EdfTree

namespace Hvf

open Loader Outcome

/-- A data block of the allocation map, of `m`. -/
def MapBlock (m : ℕ) (key : BlockKey) : Prop :=
  key.name = allocmapName ∧ key.level = 0 ∧ key.blkNo < m

/-- The block of the map for a block of the volume is one of the map's blocks. -/
theorem mapBlock_mapKey {m y : ℕ} (hy : y < 32768 * m) : MapBlock m (mapKey y) :=
  ⟨rfl, rfl, by show y / 32768 < m; omega⟩

/-- **What growing a file by a block does to the listed blocks.** Some keys are new, with fresh
block numbers marked in the map; some blocks change; all others stay as they were. -/
structure Extends (s u : Loader) (m : ℕ) (new changed : BlockKey → Prop) (c : ℕ) : Prop where
  rest : ∃ bm, u = { s with blockMap := bm }
  sound : Sound u
  absent : ∀ key, new key → s.view.lba key = none
  lba_other : ∀ key, ¬ new key → u.view.lba key = s.view.lba key
  fresh : ∀ key, new key → ∃ lba, u.view.lba key = some lba ∧ lba ≠ 0 ∧ lba - 1 < 32768 * m ∧
    s.view.bit (lba - 1) = false ∧ u.view.bit (lba - 1) = true
  inj : ∀ key key', new key → new key' → u.view.lba key = u.view.lba key' → key = key'
  content : ∀ key, s.view.lba key ≠ none → ¬ changed key → ¬ MapBlock m key →
    u.view.content key = s.view.content key
  bits : ∀ y, s.view.bit y = true → u.view.bit y = true
  dirty : ∀ key, u.view.dirty key = true →
    s.view.dirty key = true ∨ new key ∨ changed key ∨ MapBlock m key
  dirtied : ∀ key, s.view.dirty key = true → u.view.dirty key = true
  free : ∀ k, Free s.view m (k + c) → Free u.view m k

namespace Extends

variable {s u : Loader} {m c : ℕ} {new changed : BlockKey → Prop} {key : BlockKey}

/-- Growing by nothing changes nothing. -/
theorem refl (hs : Sound s) (m : ℕ) (changed : BlockKey → Prop) :
    Extends s s m (fun _ => False) changed 0 where
  rest := ⟨s.blockMap, rfl⟩
  sound := hs
  absent _ h := h.elim
  lba_other _ _ := rfl
  fresh _ h := h.elim
  inj _ _ h := h.elim
  content _ _ _ _ := rfl
  bits _ h := h
  dirty _ h := Or.inl h
  dirtied _ h := h
  free _ h := h

/-- Blocks that were there stay where they are. -/
theorem lba_old (h : Extends s u m new changed c) {lba : ℕ} (hlba : s.view.lba key = some lba) :
    u.view.lba key = some lba := by
  rw [h.lba_other key fun hnew => ?_, hlba]
  rw [h.absent key hnew] at hlba
  cases hlba

/-- A key that was not listed, and is not new, is not listed. -/
theorem lba_none (h : Extends s u m new changed c) (hlba : s.view.lba key = none)
    (hnew : ¬ new key) : u.view.lba key = none := by
  rw [h.lba_other key hnew, hlba]

/-- The FSTs are in the first block of the directory, or with the callers. -/
theorem fst_eq (h : Extends s u m new changed c) (hdir : s.view.lba dirKey ≠ none)
    (hchanged : ¬ changed dirKey) (q : FstPtr) : u.fst q = s.fst q := by
  have hcontent : u.view.content dirKey = s.view.content dirKey :=
    h.content dirKey hdir hchanged fun hmap => absurd hmap.1 (by decide)
  obtain ⟨bm, hrest⟩ := h.rest
  cases q with
  | directory => rw [fst_directory, fst_directory, hcontent]
  | allocmap => rw [fst_allocmap, fst_allocmap, hcontent]
  | caller i =>
    rw [hrest]
    rfl

/-- The map stays in order, if its own entry stays. -/
theorem mapOk (h : Extends s u m new changed c) (hmap : MapOk s)
    (hfst : u.fst .allocmap = s.fst .allocmap) : MapOk u := by
  refine ⟨by rw [hfst, hmap.name], by rw [hfst]; exact hmap.small, fun blk hblk => ?_⟩
  rw [hfst] at hblk
  obtain ⟨lba, hlba, hne⟩ := hmap.blocks blk hblk
  exact ⟨lba, h.lba_old hlba, hne⟩

/-- What is new matters, not how it is described. -/
theorem congr (h : Extends s u m new changed c) {new' : BlockKey → Prop}
    (hnew : ∀ key, new key ↔ new' key) : Extends s u m new' changed c := by
  obtain rfl : new = new' := funext fun key => propext (hnew key)
  exact h

/-- **A free block is added.** -/
theorem take (h : Extends s u m new changed c) {r : ℕ × Loader} {y : ℕ} (hy : y < 32768 * m)
    (hr : FreeBlock u r y) (habsent : s.view.lba key = none) (hnew : ¬ new key)
    (hmap : key.name ≠ allocmapName) (hdir : key ≠ dirKey) :
    ∃ u₁, r.2.blockMapAdd key r.1 = some u₁ ∧ u₁.view.lba key = some r.1 ∧
      (∀ key', key' ≠ key → u₁.view.lba key' = u.view.lba key') ∧
      (∀ key', key' ≠ key → ¬ MapBlock m key' → u₁.view.content key' = u.view.content key') ∧
      Extends s u₁ m (fun key' => new key' ∨ key' = key) changed (c + 1) := by
  have hnew' : r.2.view.lba key = none := by rw [hr.view, View.edit_lba, h.lba_none habsent hnew]
  obtain ⟨bm₁, hadd, hview, hsound⟩ := blockMapAdd_spec hr.sound hnew' hdir r.1
  generalize hu₁ : ({ r.2 with blockMap := bm₁ } : Loader) = u₁ at hadd hview hsound
  have hlba : u₁.view.lba key = some r.1 := by rw [hview, View.add_lba, if_pos rfl]
  have hlba' : ∀ key', key' ≠ key → u₁.view.lba key' = u.view.lba key' := fun key' hne => by
    rw [hview, View.add_lba, if_neg hne, hr.view, View.edit_lba]
  have hcontent : ∀ key', key' ≠ key → ¬ MapBlock m key' →
      u₁.view.content key' = u.view.content key' := by
    intro key' hne hnot
    have hne' : key' ≠ mapKey y := fun heq => hnot (heq ▸ mapBlock_mapKey hy)
    rw [hview, View.add_content, if_neg hne, hr.view, View.edit_content, if_neg hne']
  have hbit : ∀ y', u₁.view.bit y' = (decide (y' = y) || u.view.bit y') := by
    intro y'
    have hne : mapKey y' ≠ key := fun heq => hmap (heq ▸ rfl)
    have hsame : u₁.view.content (mapKey y') = r.2.view.content (mapKey y') := by
      rw [hview, View.add_content, if_neg hne]
    rw [View.bit_congr hsame, hr.view, View.bit_edit]
  have hclear : u.view.bit (r.1 - 1) = false := by rw [hr.lba, Nat.add_sub_cancel, hr.clear]
  -- a block that is free now is none of those taken before
  have hold : ∀ key', new key' → u.view.lba key' ≠ some r.1 := by
    intro key' hkey' heq
    obtain ⟨lba, hlba, -, -, -, hset⟩ := h.fresh key' hkey'
    obtain rfl := Option.some.inj (hlba.symm.trans heq)
    rw [hclear] at hset
    cases hset
  have hne : ∀ key', new key' → key' ≠ key := fun key' hkey' heq => hnew (heq ▸ hkey')
  refine ⟨u₁, hadd, hlba, hlba', hcontent, ?_⟩
  constructor
  case rest =>
    obtain ⟨bm, hu⟩ := h.rest
    obtain ⟨bm', hr'⟩ := hr.rest
    exact ⟨bm₁, by rw [← hu₁, hr', hu]⟩
  case sound => exact hsound
  case absent =>
    rintro key' (hkey' | rfl)
    · exact h.absent key' hkey'
    · exact habsent
  case lba_other =>
    intro key' hkey'
    rw [hlba' key' fun heq => hkey' (Or.inr heq), h.lba_other key' fun hn => hkey' (Or.inl hn)]
  case fresh =>
    rintro key' (hkey' | rfl)
    · obtain ⟨lba, hlba, hpos, hlt, hfree, hset⟩ := h.fresh key' hkey'
      refine ⟨lba, by rw [hlba' key' (hne key' hkey'), hlba], hpos, hlt, hfree, ?_⟩
      rw [hbit, hset, Bool.or_true]
    · have hnot : ¬ s.view.bit (r.1 - 1) = true := fun hset => by
        rw [h.bits _ hset] at hclear
        cases hclear
      refine ⟨r.1, hlba, by rw [hr.lba]; omega, by rw [hr.lba]; omega, by simpa using hnot, ?_⟩
      rw [hbit, hr.lba, Nat.add_sub_cancel, decide_eq_true rfl, Bool.true_or]
  case inj =>
    rintro key₁ key₂ (h₁ | rfl) (h₂ | rfl) heq
    · rw [hlba' key₁ (hne key₁ h₁), hlba' key₂ (hne key₂ h₂)] at heq
      exact h.inj key₁ key₂ h₁ h₂ heq
    · rw [hlba' key₁ (hne key₁ h₁), hlba] at heq
      exact absurd heq (hold key₁ h₁)
    · rw [hlba' key₂ (hne key₂ h₂), hlba] at heq
      exact absurd heq.symm (hold key₂ h₂)
    · rfl
  case content =>
    intro key' hkey' hunchanged hnot
    rw [hcontent key' (fun heq => hkey' (heq ▸ habsent)) hnot, h.content key' hkey' hunchanged hnot]
  case bits =>
    intro y' hset
    rw [hbit, h.bits y' hset, Bool.or_true]
  case dirty =>
    intro key' hdirty
    rw [hview, View.add_dirty, hr.view, View.edit_dirty] at hdirty
    by_cases hkey' : key' = mapKey y
    · exact Or.inr (Or.inr (Or.inr (hkey' ▸ mapBlock_mapKey hy)))
    · rw [if_neg hkey'] at hdirty
      rcases h.dirty key' hdirty with h | h | h | h
      · exact Or.inl h
      · exact Or.inr (Or.inl (Or.inl h))
      · exact Or.inr (Or.inr (Or.inl h))
      · exact Or.inr (Or.inr (Or.inr h))
  case dirtied =>
    intro key' hdirty
    rw [hview, View.add_dirty, hr.view, View.edit_dirty]
    split
    · rfl
    · exact h.dirtied key' hdirty
  case free =>
    intro k hfree
    refine (h.free (k + 1) (by rwa [show k + 1 + c = k + (c + 1) by omega])).take (y := y) ?_
    intro y' hne'
    rw [hbit, decide_eq_false hne', Bool.false_or]

/-- **One of the blocks is written.** -/
theorem edit (h : Extends s u m new changed c) {lba : ℕ} (hlba : u.view.lba key = some lba)
    (hpos : lba ≠ 0) (hkey : new key ∨ changed key) (hmap : key.name ≠ allocmapName)
    (f : DiskBlock → DiskBlock) :
    ∃ u₁, u.edit key true f = some u₁ ∧ u₁.view = u.view.edit key f ∧
      Extends s u₁ m new changed c := by
  obtain ⟨bm, hedit, hview, hsound⟩ := edit_spec h.sound hlba hpos true f
  generalize hu₁ : ({ u with blockMap := bm, stray := u.stray || !true } : Loader) = u₁
    at hedit hview hsound
  have hbit : ∀ y, u₁.view.bit y = u.view.bit y := fun y => View.bit_congr (by
    rw [hview, View.edit_content, if_neg fun heq : mapKey y = key => hmap (heq ▸ rfl)])
  refine ⟨u₁, hedit, hview, ?_⟩
  constructor
  case rest =>
    obtain ⟨bm', hu⟩ := h.rest
    exact ⟨bm, by rw [← hu₁, hu]; simp⟩
  case sound => exact hsound
  case absent => exact h.absent
  case lba_other =>
    intro key' hkey'
    rw [hview, View.edit_lba, h.lba_other key' hkey']
  case fresh =>
    intro key' hkey'
    obtain ⟨lba, hlba, hpos, hlt, hfree, hset⟩ := h.fresh key' hkey'
    exact ⟨lba, by rw [hview, View.edit_lba, hlba], hpos, hlt, hfree, by rw [hbit, hset]⟩
  case inj =>
    intro key₁ key₂ h₁ h₂ heq
    rw [hview, View.edit_lba] at heq
    exact h.inj key₁ key₂ h₁ h₂ heq
  case content =>
    intro key' hkey' hunchanged hnot
    have hne : key' ≠ key := by
      rintro rfl
      rcases hkey with hnew | hch
      · exact hkey' (h.absent key' hnew)
      · exact hunchanged hch
    rw [hview, View.edit_content, if_neg hne, h.content key' hkey' hunchanged hnot]
  case bits =>
    intro y hset
    rw [hbit, h.bits y hset]
  case dirty =>
    intro key' hdirty
    rw [hview, View.edit_dirty] at hdirty
    by_cases hkey' : key' = key
    · rcases hkey with hnew | hch
      · exact Or.inr (Or.inl (hkey' ▸ hnew))
      · exact Or.inr (Or.inr (Or.inl (hkey' ▸ hch)))
    · rw [if_neg hkey'] at hdirty
      exact h.dirty key' hdirty
  case dirtied =>
    intro key' hdirty
    rw [hview, View.edit_dirty]
    split
    · rfl
    · exact h.dirtied key' hdirty
  case free =>
    intro k hfree
    obtain ⟨F, hcard, hF⟩ := h.free k hfree
    exact ⟨F, hcard, fun y hy => ⟨(hF y hy).1, by rw [hbit, (hF y hy).2]⟩⟩

end Extends

end Hvf
