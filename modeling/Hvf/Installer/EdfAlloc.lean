/-
# Free blocks

Bit `y` of the allocation map, over all its blocks, stands for block `y + 1` of the
disk.  `__get_free_block` returns a block whose bit was clear, sets this bit and
changes nothing else (`getFreeBlock_spec`); it gives up if every bit is set.  It takes the
first such bit, so that one call after another takes the bits in order (`getFreeBlock_run`).
-/

import Hvf.Installer.EdfMap
import Hvf.Lib.Bitmap
import Hvf.Lib.Outcome
import Hvf.Lib.StepRun

namespace Hvf

open Loader Outcome StepRun

/-- The block of the allocation map that has bit `y`. -/
def mapKey (y : ℕ) : BlockKey := ⟨allocmapName, 0, y / 32768⟩

/-- A block of the allocation map as a bitmap. -/
def bits (buf : DiskBlock) : Bitmap.Mem := fun a => (buf a).toBitVec

/-- Bit `y` of the allocation map. -/
def View.bit (v : View) (y : ℕ) : Bool := Bitmap.test (bits (v.content (mapKey y))) 0 (y % 32768)

/-- Bit `z` of a block of the allocation map is set. -/
def setBit (z : ℕ) (buf : DiskBlock) : DiskBlock :=
  Function.update buf (z / 8) (buf (z / 8) ||| 0x80 >>> UInt8.ofNat (z % 8))

/-- The mask that the code shifts for a block is the bit map's mask. -/
theorem mask_eq (z : ℕ) : ((0x80 : UInt8) >>> UInt8.ofNat (z % 8)).toBitVec = Bitmap.mask z := by
  have hall : ∀ bit < 8, ((0x80 : UInt8) >>> UInt8.ofNat bit).toBitVec = 1#8 <<< (7 - bit) := by
    decide
  exact hall (z % 8) (Nat.mod_lt z (by decide))

/-- A block is taken exactly when the code's test of its byte is not zero. -/
theorem test_bits (buf : DiskBlock) (z : ℕ) :
    Bitmap.test (bits buf) 0 z = true ↔ buf (z / 8) &&& 0x80 >>> UInt8.ofNat (z % 8) ≠ 0 := by
  rw [Bitmap.test, bne_iff_ne, ← mask_eq, Nat.zero_add, bits, ← UInt8.toBitVec_and, Ne, Ne,
    ← UInt8.toBitVec_inj]
  rfl

/-- Marking a block sets its bit. -/
theorem bits_setBit (z : ℕ) (buf : DiskBlock) :
    bits (setBit z buf) = Bitmap.set (bits buf) 0 z := by
  funext a
  rw [Bitmap.set, Nat.zero_add, bits, setBit, Function.update_apply, Function.update_apply]
  split
  · rw [UInt8.toBitVec_or, mask_eq]
    rfl
  · rfl

/-- **Marking a block in the map** changes that block's bit and no other. -/
theorem View.bit_edit (v : View) (y y' : ℕ) :
    (v.edit (mapKey y) (setBit (y % 32768))).bit y' = (decide (y' = y) || v.bit y') := by
  rw [View.bit, View.bit, View.edit_content]
  by_cases hkey : mapKey y' = mapKey y
  · have hblk : y' / 32768 = y / 32768 := congrArg BlockKey.blkNo hkey
    rw [if_pos hkey, bits_setBit, Bitmap.test_set, ← hkey]
    congr 1
    exact decide_eq_decide.2 (by omega)
  · have hne : y' ≠ y := fun h => hkey (by rw [h])
    rw [if_neg hkey, decide_eq_false hne, Bool.false_or]

/-- A block's bit depends on the block of the map that it is in. -/
theorem View.bit_congr {v v' : View} {y : ℕ} (h : v'.content (mapKey y) = v.content (mapKey y)) :
    v'.bit y = v.bit y := by
  rw [View.bit, View.bit, h]

/-- At least `k` of the blocks of a map of `m` blocks are free. -/
def Free (v : View) (m k : ℕ) : Prop :=
  ∃ F : Finset ℕ, k ≤ F.card ∧ ∀ y ∈ F, y < 32768 * m ∧ v.bit y = false

/-- Where blocks are free, some bit is clear. -/
theorem Free.exists_clear {v : View} {m k : ℕ} (h : Free v m (k + 1)) :
    ∃ y < 32768 * m, v.bit y = false := by
  obtain ⟨F, hcard, hF⟩ := h
  obtain ⟨y, hy⟩ := Finset.card_pos.1 (Nat.lt_of_lt_of_le (Nat.succ_pos k) hcard)
  exact ⟨y, hF y hy⟩

/-- Setting one bit leaves the other free blocks. -/
theorem Free.take {v v' : View} {m k y : ℕ} (h : Free v m (k + 1))
    (hbit : ∀ y', y' ≠ y → v'.bit y' = v.bit y') : Free v' m k := by
  obtain ⟨F, hcard, hF⟩ := h
  refine ⟨F.erase y, ?_, fun y' hy' => ?_⟩
  · have := Finset.pred_card_le_card_erase (s := F) (a := y)
    omega
  · obtain ⟨hne, hmem⟩ := Finset.mem_erase.1 hy'
    obtain ⟨hlt, hclear⟩ := hF y' hmem
    exact ⟨hlt, by rw [hbit y' hne, hclear]⟩

/-- If more blocks are free, fewer are. -/
theorem Free.mono {v : View} {m k k' : ℕ} (h : Free v m k) (hle : k' ≤ k) : Free v m k' := by
  obtain ⟨F, hcard, hF⟩ := h
  exact ⟨F, hle.trans hcard, hF⟩

/-! ### The search -/

/-- The bit that the search finds in a byte is the first clear one. -/
theorem freeBit_some {byte : UInt8} {bit : ℕ} (h : freeBit byte = some bit) :
    bit < 8 ∧ byte &&& 0x80 >>> UInt8.ofNat bit = 0 ∧
      ∀ bit' < bit, byte &&& 0x80 >>> UInt8.ofNat bit' ≠ 0 := by
  rw [freeBit] at h
  split at h
  · cases h
  · obtain ⟨hclear, hmem, hfirst⟩ := List.find?_range_eq_some.1 h
    exact ⟨List.mem_range.1 hmem, by simpa using hclear, fun bit' hlt => by
      simpa using hfirst bit' hlt⟩

/-- Where it finds none, every bit of the byte is set. -/
theorem freeBit_none {byte : UInt8} (h : freeBit byte = none) {bit : ℕ} (hbit : bit < 8) :
    byte &&& 0x80 >>> UInt8.ofNat bit ≠ 0 := by
  rw [freeBit] at h
  split at h
  · rename_i hfull
    have hall : ∀ bit < 8, (0xff : UInt8) &&& 0x80 >>> UInt8.ofNat bit ≠ 0 := by decide
    rw [hfull]
    exact hall bit hbit
  · simpa using List.find?_eq_none.1 h bit (List.mem_range.2 hbit)

/-- The bit that the search finds in a block of the map is the first clear one from where it
begins. -/
theorem freeBitFrom_some {buf : DiskBlock} {n i₀ i bit : ℕ}
    (h : freeBitFrom buf n i₀ = some (i, bit)) :
    bit < 8 ∧ i < i₀ + n ∧ Bitmap.test (bits buf) 0 (8 * i + bit) = false ∧
      ∀ z, 8 * i₀ ≤ z → z < 8 * i + bit → Bitmap.test (bits buf) 0 z = true := by
  induction n generalizing i₀ with
  | zero => cases h
  | succ n ih =>
    rw [freeBitFrom] at h
    split at h
    · rename_i bit' hbit'
      obtain ⟨rfl, rfl⟩ := Prod.mk.inj (Option.some.inj h)
      obtain ⟨hlt, hclear, hfirst⟩ := freeBit_some hbit'
      refine ⟨hlt, by omega, ?_, fun z hge hz => ?_⟩
      · rw [← Bool.not_eq_true, test_bits, show (8 * i₀ + bit') / 8 = i₀ by omega,
          show (8 * i₀ + bit') % 8 = bit' by omega]
        exact not_not.2 hclear
      · rw [test_bits, show z / 8 = i₀ by omega]
        exact hfirst (z % 8) (by omega)
    · rename_i hfull
      obtain ⟨hbit, hi, hclear, hfirst⟩ := ih h
      refine ⟨hbit, by omega, hclear, fun z hge hz => ?_⟩
      by_cases hlater : 8 * (i₀ + 1) ≤ z
      · exact hfirst z hlater hz
      · rw [test_bits, show z / 8 = i₀ by omega]
        exact freeBit_none hfull (Nat.mod_lt z (by decide))

/-- Where it finds none, every bit searched is set. -/
theorem freeBitFrom_none {buf : DiskBlock} {n i₀ : ℕ} (h : freeBitFrom buf n i₀ = none) {z : ℕ}
    (hge : 8 * i₀ ≤ z) (hlt : z < 8 * (i₀ + n)) : Bitmap.test (bits buf) 0 z = true := by
  induction n generalizing i₀ with
  | zero => omega
  | succ n ih =>
    rw [freeBitFrom] at h
    split at h
    · cases h
    · rename_i hfull
      by_cases hlater : 8 * (i₀ + 1) ≤ z
      · exact ih h hlater (by omega)
      · rw [test_bits, show z / 8 = i₀ by omega]
        exact freeBit_none hfull (Nat.mod_lt z (by decide))

/-- **The allocation map is where the loader can read it**, and small enough for the numbers
of blocks to have four bytes. -/
structure MapOk (s : Loader) : Prop where
  name : Fst.name (s.fst .allocmap) = allocmapName
  small : 32768 * Fst.adbc (s.fst .allocmap) < 2 ^ 32
  blocks : ∀ blk < Fst.adbc (s.fst .allocmap), ∃ lba, s.view.lba ⟨allocmapName, 0, blk⟩ = some lba ∧
    lba ≠ 0

/-- **What `__get_free_block` returns and leaves**: the number of a block that was free, its
bit set, and all else as it was. -/
structure FreeBlock (s : Loader) (r : ℕ × Loader) (y : ℕ) : Prop where
  lba : r.1 = y + 1
  clear : s.view.bit y = false
  rest : ∃ bm, r.2 = { s with blockMap := bm }
  view : r.2.view = s.view.edit (mapKey y) (setBit (y % 32768))
  sound : Sound r.2

/-- The map's own entry depends on what the blocks hold. -/
theorem fst_allocmap_congr {s s' : Loader} (h : s'.view = s.view) :
    s'.fst .allocmap = s.fst .allocmap :=
  congrArg (fun v : View => fun i => v.content dirKey (64 + i)) h

/-- **The blocks of the allocation map can be read**: they are all listed, with a number
that is not 0. -/
structure ReadableMap (s : Loader) : Prop where
  name : Fst.name (s.fst .allocmap) = allocmapName
  blocks : ∀ blk < Fst.adbc (s.fst .allocmap), ∃ lba, s.view.lba ⟨allocmapName, 0, blk⟩ = some lba ∧
    lba ≠ 0

/-- A map in order can be read. -/
theorem MapOk.readable {s : Loader} (h : MapOk s) : ReadableMap s := ⟨h.name, h.blocks⟩

/-- Whether the map can be read depends on what the blocks hold. -/
theorem ReadableMap.congr {s s' : Loader} (h : ReadableMap s) (hview : s'.view = s.view) :
    ReadableMap s' := by
  have hfst := fst_allocmap_congr hview
  refine ⟨by rw [hfst, h.name], fun blk hblk => ?_⟩
  rw [hfst] at hblk
  rw [hview]
  exact h.blocks blk hblk

/-- **The search for a free block.** From some block of the map on it returns the first free
one, if there is one, and dies otherwise. -/
theorem freeFrom_spec {ok : Prop} {s : Loader} (hs : Sound s) (hmap : ReadableMap s) {n blk : ℕ}
    (hn : blk + n ≤ Fst.adbc (s.fst .allocmap))
    (hok : ok → ∃ y, 32768 * blk ≤ y ∧ y < 32768 * (blk + n) ∧ s.view.bit y = false) :
    Spec ok (freeFrom n blk s) fun r => ∃ y < 32768 * (blk + n), FreeBlock s r y ∧
      ∀ y', 32768 * blk ≤ y' → y' < y → s.view.bit y' = true := by
  induction n generalizing s blk with
  | zero =>
    refine Spec.none fun h => ?_
    obtain ⟨y, hge, hlt, _⟩ := hok h
    omega
  | succ n ih =>
    obtain ⟨lba, hlba, hne⟩ := hmap.blocks blk (by omega)
    obtain ⟨bm, _, hread, hview, hsound, -, -⟩ := readFileBlk_spec hs hlba hne
    rw [freeFrom, hmap.name]
    simp only [Option.bind_eq_bind, hread, Option.bind_some]
    generalize hs₁ : ({ s with blockMap := bm } : Loader) = s₁ at hview hsound ⊢
    have hfst := fst_allocmap_congr hview
    cases hfree : freeBitFrom (s.view.content ⟨allocmapName, 0, blk⟩) 4096 0 with
    | some place =>
      obtain ⟨i, bit⟩ := place
      obtain ⟨hbit, hlt, hclear, hfirst⟩ := freeBitFrom_some hfree
      have hkey : mapKey (32768 * blk + (8 * i + bit)) = ⟨allocmapName, 0, blk⟩ := by
        rw [mapKey, show (32768 * blk + (8 * i + bit)) / 32768 = blk by omega]
      have hplace : (32768 * blk + (8 * i + bit)) % 32768 = 8 * i + bit := by omega
      obtain ⟨bm', hedit, hview', hsound'⟩ := edit_spec hsound (hview ▸ hlba) hne true
        fun buf => Function.update buf i (buf i ||| 0x80 >>> UInt8.ofNat bit)
      dsimp only
      simp only [takeBit, hedit, Option.bind_eq_bind, Option.bind_some]
      refine Spec.ret ⟨32768 * blk + (8 * i + bit), by omega, ?_, fun y' hge hlt' => ?_⟩
      swap
      · rw [View.bit, mapKey, show y' / 32768 = blk by omega]
        exact hfirst (y' % 32768) (by omega) (by omega)
      refine ⟨by dsimp only; omega, ?_, ⟨bm', ?_⟩, ?_, hsound'⟩
      · rw [View.bit, hkey, hplace]
        exact hclear
      · rw [← hs₁]
        simp
      · rw [hview', hview, hkey, hplace]
        congr 1
        funext buf
        rw [setBit, show (8 * i + bit) / 8 = i by omega, show (8 * i + bit) % 8 = bit by omega]
    | none =>
      have hmap' : ReadableMap s₁ := hmap.congr hview
      -- all bits of this block are set
      have hset {y : ℕ} (hge : 32768 * blk ≤ y) (hlt : y < 32768 * (blk + 1)) :
          s.view.bit y = true := by
        rw [View.bit, mapKey, show y / 32768 = blk by omega]
        exact freeBitFrom_none hfree (Nat.zero_le _) (by omega)
      have hok' : ok → ∃ y, 32768 * (blk + 1) ≤ y ∧ y < 32768 * (blk + 1 + n) ∧
          s₁.view.bit y = false := by
        intro h
        obtain ⟨y, hge, hlt, hclear⟩ := hok h
        refine ⟨y, ?_, by omega, by rw [hview, hclear]⟩
        by_contra hlow
        rw [hset hge (by omega)] at hclear
        cases hclear
      refine (ih hsound hmap' (by rw [hfst]; omega) hok').mono fun r hr => ?_
      obtain ⟨y, hy, hfb, hfirst⟩ := hr
      obtain ⟨bm', hrest⟩ := hfb.rest
      refine ⟨y, by omega, ⟨hfb.lba, ?_, ⟨bm', ?_⟩, ?_, hfb.sound⟩, fun y' hge hlt => ?_⟩
      · rw [← hview, hfb.clear]
      · rw [hrest, ← hs₁]
      · rw [hfb.view, hview]
      · by_cases hlow : y' < 32768 * (blk + 1)
        · exact hset hge hlow
        · rw [← hview]
          exact hfirst y' (by omega) hlt

/-- **`__get_free_block` returns a block that was free**, sets its bit and changes
nothing else; it gives up only if no block is free. -/
theorem getFreeBlock_spec {ok : Prop} {s : Loader} (hs : Sound s) (hmap : MapOk s)
    (hok : ok → ∃ y < 32768 * Fst.adbc (s.fst .allocmap), s.view.bit y = false) :
    Spec ok s.getFreeBlock fun r => ∃ y < 32768 * Fst.adbc (s.fst .allocmap), FreeBlock s r y := by
  have h := freeFrom_spec (n := Fst.adbc (s.fst .allocmap)) hs hmap.readable (by rw [Nat.zero_add])
    fun h => by
      obtain ⟨y, hy, hclear⟩ := hok h
      exact ⟨y, Nat.zero_le _, by rwa [Nat.zero_add], hclear⟩
  rw [Nat.zero_add] at h
  exact h.mono fun r ⟨y, hy, hfree, _⟩ => ⟨y, hy, hfree⟩

/-! ### One call after another -/

/-- A call of `__get_free_block` and the number it returns. -/
def GetsFree (s : Loader) (lba : ℕ) (s' : Loader) : Prop := s.getFreeBlock = some (lba, s')

/-- The call takes bit `y`: the first one that is clear is set, its block of the map is
marked, and the number is its place, counted from 1, in a word. -/
structure TakesBit (s : Loader) (lba : ℕ) (s' : Loader) (y : ℕ) : Prop where
  place : lba = y + 1
  word : lba < 2 ^ 32
  mapped : y < 32768 * Fst.adbc (s.fst .allocmap)
  clear : s.view.bit y = false
  first : ∀ y' < y, s.view.bit y' = true
  bits : ∀ y', s'.view.bit y' = (decide (y' = y) || s.view.bit y')
  dirty : s'.view.dirty (mapKey y) = true
  rest : ∀ key, key ≠ mapKey y →
    s'.view.content key = s.view.content key ∧ s'.view.dirty key = s.view.dirty key

/-- **The map can be read, and its clear bits stand for blocks with a number**, one that
fits four bytes. -/
structure AllocMap (s : Loader) : Prop where
  sound : Sound s
  readable : ReadableMap s
  words : ∀ y < 32768 * Fst.adbc (s.fst .allocmap), s.view.bit y = false → y + 1 < 2 ^ 32

/-- Setting a bit of the map leaves the FST of the map. -/
theorem fst_allocmap_edit {s s' : Loader} {y : ℕ} {f : DiskBlock → DiskBlock}
    (h : s'.view = s.view.edit (mapKey y) f) : s'.fst .allocmap = s.fst .allocmap := by
  funext i
  show s'.view.content dirKey (64 + i) = s.view.content dirKey (64 + i)
  rw [h, View.edit_content, if_neg]
  intro hkey
  exact absurd (congrArg BlockKey.name hkey) (by decide : directorName ≠ allocmapName)

/-- **One call.** -/
theorem AllocMap.takes {s s' : Loader} {lba : ℕ} (hs : AllocMap s) (h : GetsFree s lba s') :
    AllocMap s' ∧ s'.fst .allocmap = s.fst .allocmap ∧ ∃ y, TakesBit s lba s' y := by
  have hspec := freeFrom_spec hs.sound hs.readable
    (by rw [Nat.zero_add] : 0 + Fst.adbc (s.fst .allocmap) ≤ _) False.elim
  obtain ⟨y, hy, hfree, hfirst⟩ := hspec.post h
  rw [Nat.zero_add] at hy
  have hfst := fst_allocmap_edit hfree.view
  have hbits (y' : ℕ) : s'.view.bit y' = (decide (y' = y) || s.view.bit y') := by
    rw [show s'.view = _ from hfree.view, View.bit_edit]
  refine ⟨⟨hfree.sound, ⟨by rw [hfst, hs.readable.name], fun blk hblk => ?_⟩,
    fun y' hy' hclear => ?_⟩, hfst, y, hfree.lba, ?_, hy, hfree.clear,
    fun y' hlt => hfirst y' (by omega) hlt, hbits, ?_, fun key hkey => ?_⟩
  · rw [hfst] at hblk
    rw [show s'.view = _ from hfree.view, View.edit_lba]
    exact hs.readable.blocks blk hblk
  · rw [hfst] at hy'
    rw [hbits, Bool.or_eq_false_iff] at hclear
    exact hs.words y' hy' hclear.2
  · rw [show lba = y + 1 from hfree.lba]
    exact hs.words y hy hfree.clear
  · rw [show s'.view = _ from hfree.view, View.edit_dirty, if_pos rfl]
  · rw [show s'.view = _ from hfree.view, View.edit_content, View.edit_dirty, if_neg hkey,
      if_neg hkey]
    exact ⟨rfl, rfl⟩

/-- It gives up exactly when every bit of the map is set. -/
theorem AllocMap.gives_up_iff {s : Loader} (hs : AllocMap s) :
    s.getFreeBlock = none ↔ ∀ y < 32768 * Fst.adbc (s.fst .allocmap), s.view.bit y = true := by
  constructor
  · intro hnone y hy
    by_contra hclear
    have hspec := freeFrom_spec hs.sound hs.readable
      (by rw [Nat.zero_add] : 0 + Fst.adbc (s.fst .allocmap) ≤ _) fun _ : True =>
        ⟨y, Nat.zero_le _, by rwa [Nat.zero_add], by simpa using hclear⟩
    obtain ⟨r, hr, -⟩ := hspec.returns trivial
    exact nomatch hnone.symm.trans hr
  · intro hset
    cases hr : s.getFreeBlock with
    | none => rfl
    | some r =>
      obtain ⟨-, -, y, htakes⟩ := hs.takes hr
      have hclear := htakes.clear
      rw [hset y htakes.mapped] at hclear
      exact nomatch hclear

/-- **After some calls** the bits up to each number they returned are set, so the next
number is a greater one. -/
structure Handed (s : Loader) (lbas : List ℕ) (t : Loader) : Prop where
  map : AllocMap t
  fst : t.fst .allocmap = s.fst .allocmap
  below : ∀ lba ∈ lbas, ∀ y < lba, t.view.bit y = true
  sorted : lbas.Pairwise (· < ·)

/-- Before the first call no block is handed out. -/
theorem Handed.start {s : Loader} (hs : AllocMap s) : Handed s [] s :=
  ⟨hs, rfl, nofun, List.Pairwise.nil⟩

/-- A number that was returned is less than the next one. -/
theorem Handed.lt {s t t' : Loader} {lbas : List ℕ} {lba y : ℕ} (h : Handed s lbas t)
    (htakes : TakesBit t lba t' y) : ∀ old ∈ lbas, old < lba := by
  intro old hold
  by_contra hge
  have hset := h.below old hold y (by rw [htakes.place] at hge; omega)
  rw [htakes.clear] at hset
  exact nomatch hset

/-- **One more call** hands out one more block, with a greater number than before. -/
theorem Handed.step {s t t' : Loader} {lbas : List ℕ} {lba : ℕ} (h : Handed s lbas t)
    (hstep : GetsFree t lba t') : Handed s (lbas ++ [lba]) t' := by
  obtain ⟨hmap, hfst, y, htakes⟩ := h.map.takes hstep
  refine ⟨hmap, hfst.trans h.fst, fun old hold y' hlt => ?_, List.pairwise_append.2
    ⟨h.sorted, List.pairwise_singleton _ _, fun old hold new hnew => ?_⟩⟩
  · rw [htakes.bits, Bool.or_eq_true, decide_eq_true_eq]
    obtain hold | hold := List.mem_append.1 hold
    · exact Or.inr (h.below old hold y' hlt)
    · rw [List.mem_singleton.1 hold, htakes.place] at hlt
      exact (Nat.lt_succ_iff_lt_or_eq.1 hlt).symm.imp_right (htakes.first y')
  · rw [List.mem_singleton.1 hnew]
    exact h.lt htakes old hold

/-- **`__get_free_block` never repeats itself.**  In every state that calls lead to, the next
one takes the first clear bit and returns its place, which is more than all numbers returned
so far; it gives up exactly when every bit of the map is set. -/
theorem getFreeBlock_run {s t : Loader} {lbas : List ℕ} (hs : AllocMap s)
    (hrun : Run GetsFree s lbas t) :
    lbas.Pairwise (· < ·) ∧
      (∀ lba t', t.getFreeBlock = some (lba, t') →
        (∀ old ∈ lbas, old < lba) ∧ ∃ y, TakesBit t lba t' y) ∧
      (t.getFreeBlock = none ↔
        ∀ y < 32768 * Fst.adbc (s.fst .allocmap), t.view.bit y = true) := by
  have h : Handed s lbas t := hrun.history (P := Handed s) (Handed.start hs)
    fun _ _ _ _ h hstep => h.step hstep
  refine ⟨h.sorted, fun lba t' hstep => ?_, ?_⟩
  · obtain ⟨-, -, y, htakes⟩ := h.map.takes hstep
    exact ⟨h.lt htakes, y, htakes⟩
  · rw [h.map.gives_up_iff, h.fst]

/-- A directory whose second FST is that of an allocation map of one block. -/
def oneMapDir : DiskBlock := fun i =>
  if i = 64 + 47 then 1 else (allocmapName.fn ++ allocmapName.ft).getD (i - 64) 0

/-- A volume that has it, with an empty map in block 5. -/
def oneMapLoader : Loader where
  nfst := 64
  disk _ := fun _ => 0
  blockMap := [⟨dirKey, 4, some oneMapDir, false⟩, ⟨⟨allocmapName, 0, 0⟩, 5, none, false⟩]
  fsts _ := fun _ => 0
  stray := false

/-- The volume of the example has one block of map. -/
theorem adbc_oneMapLoader : Fst.adbc (oneMapLoader.fst .allocmap) = 1 := by decide +kernel

/-- Its map is in order. -/
theorem allocMap_oneMapLoader : AllocMap oneMapLoader where
  sound :=
    { keys := by decide
      dirty := by simp [oneMapLoader]
      clean := by
        intro map hmem _ hne
        obtain rfl | hmem := List.mem_cons.1 hmem
        · exact absurd rfl hne
        · rw [List.mem_singleton.1 hmem]
          rfl
      directory := by
        intro map hmem hkey
        obtain rfl | hmem := List.mem_cons.1 hmem
        · rfl
        · rw [List.mem_singleton.1 hmem] at hkey
          exact absurd (congrArg BlockKey.name hkey) (by decide) }
  readable :=
    { name := by decide +kernel
      blocks := by
        intro blk hblk
        rw [adbc_oneMapLoader] at hblk
        obtain rfl : blk = 0 := by omega
        exact ⟨5, by decide +kernel, by decide⟩ }
  words y hy _ := by
    rw [adbc_oneMapLoader] at hy
    omega

/-- The volume behind a call of `__get_free_block`. -/
def oneMapNext (s : Loader) : Loader := (s.getFreeBlock.map Prod.snd).getD s

/-- The example's next call, by evaluation. -/
theorem getsFree_next {s : Loader} {lba : ℕ} (h : s.getFreeBlock.map Prod.fst = some lba) :
    GetsFree s lba (oneMapNext s) := by
  obtain ⟨⟨_, s'⟩, hs', rfl⟩ := Option.map_eq_some_iff.1 h
  rw [GetsFree, oneMapNext, hs']
  rfl

/-- Two calls for an empty map return 1 and 2, the first bits. -/
theorem getFreeBlock_run_two :
    [1, 2].Pairwise (· < ·) ∧
      (∀ lba t', (oneMapNext (oneMapNext oneMapLoader)).getFreeBlock = some (lba, t') →
        (∀ old ∈ [1, 2], old < lba) ∧
          ∃ y, TakesBit (oneMapNext (oneMapNext oneMapLoader)) lba t' y) ∧
      ((oneMapNext (oneMapNext oneMapLoader)).getFreeBlock = none ↔
        ∀ y < 32768 * Fst.adbc (oneMapLoader.fst .allocmap),
          (oneMapNext (oneMapNext oneMapLoader)).view.bit y = true) :=
  getFreeBlock_run allocMap_oneMapLoader
    ((Run.nil.snoc (getsFree_next (by decide +kernel))).snoc (getsFree_next (by decide +kernel)))

end Hvf
