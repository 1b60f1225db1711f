/-
# A file is entered

`create_file` fills in an FST and appends it to the directory as a record.  The directory
may get a block for it; its own FST then counts one entry more (`entryAdded_spec`).  A
volume that was sound is sound with the new file, which has no blocks (`VolumeOk.create`).
-/

import Hvf.Installer.EdfTrees

namespace Hvf

open Loader Outcome StepRun

/-! ### The directory gets a record -/

/-- **`append_record` of the directory among the files `live`**: the new entry is the last,
the directory's tree is the only one that has changed, and the trees still share no block.
-/
structure EntryAdded (s u : Loader) (fst : DiskBlock) (live : ℕ → Prop) (tr : ℕ → Tree)
    (kept : ℕ → Prop) : Prop where
  appended : DirAppended s u fst
  forest : Forest u.view live (Function.update tr 0 (treeOf (u.view.entry 0))) kept
  marked : u.view.dirty dirKey = true
  free : ∀ j, Free s.view (Fst.adbc (s.view.entry 1)) (j + (Fst.nlvl (s.view.entry 0) + 2)) →
    Free u.view (Fst.adbc (s.view.entry 1)) j

section

variable {s u : Loader} {live : ℕ → Prop} {tr : ℕ → Tree} {kept : ℕ → Prop} {fst : DiskBlock}

/-- What `__append_block` relies on, for a directory without room. -/
theorem base_directory (hs : Sound s) (hd : DirOk s.view)
    (hmapSmall : 32768 * Fst.adbc (s.view.entry 1) < 2 ^ 32) (hsmall : s.view.entries < 2 ^ 26)
    (hok : (treeOf (s.view.entry 0)).Ok s.view) (hgrows : (treeOf (s.view.entry 0)).Grows s.view)
    (hfull : s.view.entries = 64 * s.view.dirBlocks) :
    Base s .directory (Fst.adbc (s.view.entry 1)) := by
  constructor
  case sound => exact hs
  case map => exact ⟨hd.allocmap, hmapSmall, hd.mapBlocks⟩
  case blocks => rfl
  case directory => exact hd.dirKey_ne_none
  case ok =>
    rw [DirOk.fst_directory]
    exact hok
  case grows =>
    rw [DirOk.fst_directory]
    exact hgrows
  case name =>
    rw [DirOk.fst_directory, show Fst.name (s.view.entry 0) = directorName from hd.director]
    decide
  case ptr => exact nofun
  case adbc =>
    rw [DirOk.fst_directory]
    show s.view.dirBlocks < 2 ^ 20
    omega

/-- The next entry is in one block. -/
theorem recordGoes_entries (hd : DirOk s.view) (hsmall : s.view.entries < 2 ^ 26) :
    RecordGoes (s.view.entry 0) (blocksAfter (s.view.entry 0)) := by
  have hroom := hd.room
  have htight := hd.tight
  have haic : Fst.aic (s.view.entry 0) = s.view.entries := rfl
  have hadbc : Fst.adbc (s.view.entry 0) = s.view.dirBlocks := rfl
  have hlrecl := hd.lrecl
  exact (recordGoes (by rw [haic, hlrecl]; omega) (by rw [haic, hadbc, hlrecl]; omega)
    (by rw [hlrecl]; decide) (by rw [hlrecl]; decide)).1

/-- **The directory gets an entry**, if there are free blocks for a data block and the
levels above. -/
theorem entryAdded_spec {ok : Prop} (hs : Sound s) (hnfst : s.nfst = 64) (hd : DirOk s.view)
    (hmapSmall : 32768 * Fst.adbc (s.view.entry 1) < 2 ^ 32) (hsmall : s.view.entries < 2 ^ 26)
    (hf : Forest s.view live tr kept) (hzero : live 0) (htr : tr 0 = treeOf (s.view.entry 0))
    (hmap : tr 1 = treeOf (s.view.entry 1))
    (hgrows : s.view.entries = 64 * s.view.dirBlocks → (treeOf (s.view.entry 0)).Grows s.view)
    (hok : ok → Free s.view (Fst.adbc (s.view.entry 1)) (Fst.nlvl (s.view.entry 0) + 2)) :
    Spec ok (s.appendRecord .directory fst) fun u => EntryAdded s u fst live tr kept := by
  have hroom := hd.room
  have htwo := hd.two
  have hlrecl := hd.lrecl
  have hoff := recordOff_entries hd hsmall
  have hrem := recordRem_entries hd hsmall
  have hgoes := recordGoes_entries hd hsmall
  have hdirFst := DirOk.fst_directory s
  have hname : Fst.name (s.view.entry 0) = directorName := hd.director
  have htree : (treeOf (s.view.entry 0)).Ok s.view := htr ▸ hf.tree 0 hzero
  have hbase : recordRem (s.view.entry 0) < Fst.lrecl (s.view.entry 0) →
      Base s .directory (Fst.adbc (s.view.entry 1)) := fun hmore => by
    have hfull : s.view.entries = 64 * s.view.dirBlocks := by omega
    exact base_directory hs hd hmapSmall hsmall htree (hgrows hfull) hfull
  have hroomMade : Spec ok (if recordRem (s.fst .directory) < Fst.lrecl (s.fst .directory) then
      s.appendBlock .directory else some s) fun u =>
        RoomMade s u .directory (Fst.adbc (s.view.entry 1)) := by
    refine roomMade_spec (fun hmore => hbase (by rwa [hdirFst] at hmore)) (fun _ => ?_)
      fun hyes => ?_
    · rw [hdirFst]
      show s.view.dirBlocks ≠ 0
      omega
    · rw [hdirFst]
      exact hok hyes
  have happend := appendRecord_eq s .directory fst
  rw [hdirFst] at hroomMade happend
  rw [if_neg (not_not.2 hd.recfm)] at happend
  cases hgrow : (if recordRem (s.view.entry 0) < Fst.lrecl (s.view.entry 0) then
      s.appendBlock .directory else some s) with
  | none =>
    rw [hgrow] at hroomMade happend
    rw [happend]
    exact hroomMade
  | some s₁ =>
    have hroomMade := hroomMade.post hgrow
    rw [hgrow] at happend
    obtain ⟨hsound₁, hdisk₁, hnfst₁, hstray₁, hother₁, hlba₁, -⟩ := hroomMade.rest hs
    have hsame₁ := hroomMade.same.1
    have hadbc₁ := hroomMade.adbc
    have hforest₁ := hroomMade.forest hf hzero (by rw [htr, hdirFst]) (by rw [hmap]; rfl)
    rw [hdirFst, DirOk.fst_directory] at hsame₁ hadbc₁
    rw [DirOk.fst_directory] at hforest₁
    set n := blocksAfter (s.view.entry 0)
    have htree₁ : (treeOf (s₁.view.entry 0)).Ok s₁.view := by
      have hupdated := hforest₁.tree 0 hzero
      rwa [Function.update_self] at hupdated
    have hname₁ : Fst.name (s₁.view.entry 0) = directorName := hsame₁.name.trans hname
    have hdata₁ : ∀ b < n, (treeOf (s₁.view.entry 0)).Has ⟨directorName, 0, b⟩ := fun b hb =>
      ⟨hname₁.symm, Nat.zero_le _, by
        show b * 1024 ^ 0 < Fst.adbc (s₁.view.entry 0)
        rwa [pow_zero, Nat.mul_one, hadbc₁]⟩
    obtain ⟨s₂, hcopy, hw₂, hbytes₂⟩ :=
      copyRecord_spec fst hsound₁ (fun b hb => htree₁.present _ (hdata₁ b hb)) hgoes
    -- the directory's own FST is before the record
    have hpos : 0 < n := by
      by_cases hwhole : recordRem (s.view.entry 0) = 0 ∨
          Fst.lrecl (s.view.entry 0) ≤ recordRem (s.view.entry 0)
      · exact (Nat.zero_le _).trans_lt (hgoes.whole hwhole).2
      · exact (Nat.zero_le _).trans_lt (hgoes.parts hwhole).2.2
    have hzero₂ : SameFst (s₂.view.entry 0) (s₁.view.entry 0) := by
      intro j hj
      have hbyte := hbytes₂ j
      rw [if_neg (by omega), View.fileByte, View.fileByte, Nat.div_eq_of_lt (by omega),
        Nat.mod_eq_of_lt (by omega)] at hbyte
      rw [View.entry_zero, View.entry_zero]
      exact hbyte
    have hdirLba₂ : s₂.view.lba dirKey ≠ none := by
      obtain ⟨lba, hlba, -⟩ := htree₁.present _ (hdata₁ 0 hpos)
      rw [hw₂.lba]
      show s₁.view.lba ⟨directorName, 0, 0⟩ ≠ none
      rw [hlba]
      exact Option.some_ne_none lba
    -- the record is counted
    set s₃ := s₂.setFst .directory fun fst => Fst.setAic fst (Fst.aic fst + 1) with hs₃
    have hw₃ := hw₂.trans (Wrote.of_setFst_directory hw₂.sound hdirLba₂ fstChange_setAic
      ⟨rfl, rfl, hpos⟩)
    have hview₃ := (touches_setFst_directory hw₂.sound hdirLba₂ fstChange_setAic).1
    rw [← hs₃] at hw₃ hview₃
    have htree₃ : treeOf (s₃.view.entry 0) = treeOf (s₁.view.entry 0) := by
      rw [hview₃, View.entry_poke_zero, treeOf_setAic, hzero₂.treeOf_eq]
    have hadbc₃ : Fst.adbc (s₃.view.entry 0) = n := (congrArg Tree.adbc htree₃).trans hadbc₁
    have hnfst₃ : s₃.nfst = 64 := hw₃.nfst.trans (hnfst₁.trans hnfst)
    -- and the directory's FST is copied to where it is
    obtain ⟨u, hupdate⟩ : ∃ u, s₃.updateDirectory .directory = some u := by
      rw [updateDirectory, DirOk.fst_directory, hadbc₃]
      refine updateBlocks_isSome hw₃.sound hnfst₃ (fun b hb => ?_) ⟨0, le_rfl, by omega, rfl⟩
      rw [hw₃.lba]
      exact htree₁.present _ (hdata₁ b (by omega))
    have happend : s.appendRecord .directory fst = some u := by
      rw [happend, Option.bind_some, DirOk.fst_directory, hname₁, hcopy, Option.bind_some, ← hs₃,
        hupdate]
    have hsameAll := (updateDirectory_directory hw₃.sound hnfst₃ hupdate).2
    rw [updateDirectory, DirOk.fst_directory] at hupdate
    obtain ⟨k, -, hfirst, hview, ht⟩ := updateBlocks_spec hw₃.sound hnfst₃ hupdate
    obtain rfl : k = 0 := by
      by_contra hne
      exact hfirst.first 0 le_rfl (Nat.pos_of_ne_zero hne) rfl
    have hw := hw₃.trans (Wrote.of_edit ht hview ⟨rfl, rfl, hpos⟩)
    have hbit : ∀ y, u.view.bit y = s₁.view.bit y := fun y =>
      View.bit_congr (hw.content _ fun hkey =>
        absurd hkey.1 (by decide : allocmapName ≠ directorName))
    rw [happend]
    refine Spec.ret ?_
    constructor
    case appended =>
      refine dirAppended_of_appendRecord hs hnfst hd hsmall (fun hfull => ?_) happend
      have hfits := (base_directory hs hd hmapSmall hsmall htree (hgrows hfull) hfull).pointerFits
      rwa [hdirFst] at hfits
    case forest =>
      rw [(hsameAll 0).treeOf_eq, htree₃]
      refine hforest₁.wrote hw fun key hkey => ?_
      obtain ⟨name, level, blkNo⟩ := key
      obtain ⟨hkname, hlevel, hblk⟩ := hkey
      dsimp only at hkname hlevel hblk
      subst hkname hlevel
      refine ⟨⟨0, hzero, ?_⟩, rfl, (by decide : directorName ≠ allocmapName)⟩
      rw [Function.update_self]
      exact hdata₁ blkNo hblk
    case marked =>
      rw [hview, View.edit_dirty]
      exact if_pos rfl
    case free =>
      intro j hfree
      obtain ⟨F, hcard, hF⟩ := hroomMade.free (k := j) (by rwa [hdirFst])
      exact ⟨F, hcard, fun y hy => ⟨(hF y hy).1, by rw [hbit, (hF y hy).2]⟩⟩

end

/-! ### The FST that `create_file` fills in -/

section

variable (ebcdic : UInt8 → UInt8) (fn ft : List UInt8) (lrecl : ℕ)

/-- A new file has no origin, no blocks and no records. -/
theorem createdFst_word {off : ℕ} (hlow : 9 ≤ off) (hhigh : off ≤ 12) :
    ptrAt (createdFst ebcdic fn ft lrecl) off = 0 := by
  have hbyte : ∀ i, 36 ≤ i → i < 52 → createdFst ebcdic fn ft lrecl i = 0 := by
    intro i hge hlt
    rw [createdFst, setPtrAt_of_lt _ _ (by omega)]
    rw [if_neg (by omega), if_neg (by omega), if_neg (by omega), if_neg (by omega),
      if_neg (by omega)]
  simp [ptrAt, hbyte _ (show 36 ≤ 4 * off by omega) (by omega),
    hbyte _ (show 36 ≤ 4 * off + 1 by omega) (by omega),
    hbyte _ (show 36 ≤ 4 * off + 2 by omega) (by omega),
    hbyte _ (show 36 ≤ 4 * off + 3 by omega) (by omega)]

/-- Its record length is the one asked for, if that is at most 4096. -/
theorem lrecl_createdFst (hle : lrecl ≤ 4096) :
    Fst.lrecl (createdFst ebcdic fn ft lrecl) = lrecl :=
  ptrAt_setPtrAt_self _ 8 (by omega)

/-- A file without blocks. -/
theorem treeOf_createdFst : treeOf (createdFst ebcdic fn ft lrecl) =
    ⟨Fst.name (createdFst ebcdic fn ft lrecl), 0, 0, 0⟩ := by
  rw [treeOf, Tree.mk.injEq]
  exact ⟨rfl, createdFst_word ebcdic fn ft lrecl (by decide) (by decide), rfl,
    createdFst_word ebcdic fn ft lrecl (by decide) (by decide)⟩

variable {lrecl}

/-- A file without records. -/
theorem fileHas_createdFst (v : View) (hpos : 0 < lrecl) (hle : lrecl ≤ 4096) :
    FileHas v (createdFst ebcdic fn ft lrecl) [] := by
  have hlrecl := lrecl_createdFst ebcdic fn ft lrecl hle
  have haic : Fst.aic (createdFst ebcdic fn ft lrecl) = 0 :=
    createdFst_word ebcdic fn ft lrecl (by decide) (by decide)
  have hadbc : Fst.adbc (createdFst ebcdic fn ft lrecl) = 0 :=
    createdFst_word ebcdic fn ft lrecl (by decide) (by decide)
  constructor
  case recfm => rfl
  case ptrsz => rfl
  case pos => rwa [hlrecl]
  case lrecl => rwa [hlrecl]
  case aic => exact haic
  case blocks => rw [hadbc, haic, Nat.zero_mul]
  case low => rw [hadbc]; decide
  case bytes => exact nofun

end

/-! ### A volume with one file more -/

namespace VolumeOk

variable {disk : ℕ → DiskBlock} {t t' : VolumeSession} {ebcdic : UInt8 → UInt8}
  {fn ft : List UInt8} {lrecl i : ℕ}

/-- **The entry of a new file is added** to the directory of a volume in order: the call returns
if three blocks are free, and the other entries stay. -/
theorem entryAdded_spec {ok : Prop} (h : VolumeOk disk t) (fsts : ℕ → DiskBlock) (fst : DiskBlock)
    (hmeets : VolumeMeets t (.create fn ft lrecl i))
    (hok : ok → Free t.loader.view (Fst.adbc (t.loader.view.entry 1))
      (Fst.nlvl (t.loader.view.entry 0) + 2)) :
    Spec ok (appendRecord { t.loader with fsts := fsts } .directory fst) fun u =>
      EntryAdded { t.loader with fsts := fsts } u fst (Known disk t.loader.view)
        (fun k => treeOf (t.loader.view.entry k)) (OldBlock disk) :=
  Hvf.entryAdded_spec (s := { t.loader with fsts := fsts })
    ⟨h.sound.keys, h.sound.dirty, h.sound.clean, h.sound.directory⟩ h.nfst h.dir h.small hmeets.1
    h.forest (zero disk t.loader.view) rfl rfl hmeets.2 hok

/-- **The volume is sound with a file more.** -/
theorem create (h : VolumeOk disk t) (hmeets : VolumeMeets t (.create fn ft lrecl i))
    (hstep : VolumeStep ebcdic t (.create fn ft lrecl i) t') : VolumeOk disk t' := by
  obtain ⟨hpos, hle, hnew, hcreate, howner', hfiles'⟩ := hstep
  set fst := createdFst ebcdic fn ft lrecl with hfst
  rw [createFile_eq, ← hfst] at hcreate
  have hadd := (h.entryAdded_spec _ fst hmeets False.elim).post hcreate
  have hu := hadd.appended
  set s := t.loader
  set u := t'.loader
  set n := s.view.entries with hn
  have hd : DirOk s.view := h.dir
  have hroom := hd.room
  obtain ⟨hfirst, hlast⟩ : 2 ≤ Fst.aic (diskDir disk) ∧ Fst.aic (diskDir disk) ≤ n := h.first
  have hentries : u.view.entries = n + 1 := hu.entries
  have hold : ∀ k < n, k ≠ 0 → SameFst (u.view.entry k) (s.view.entry k) := fun k hk hne =>
    hu.old k (by show k < 64 * s.view.dirBlocks; omega) hne (Nat.ne_of_lt hk)
  have hnames : ∀ k < n, u.view.entryName k = s.view.entryName k := by
    intro k hk
    by_cases hzero : k = 0
    · rw [hzero]
      exact hu.same.name
    · exact (hold k hk hzero).name
  have hbelow : ∀ k, Known disk s.view k → k < n := by
    rintro k (hk | hk)
    · omega
    · exact hk.2
  have hlive : Known disk u.view = fun k => Known disk s.view k ∨ k = n := by
    funext k
    rw [Known, Known, hentries]
    exact propext (by omega)
  have hfsts : ∀ j, u.fsts j = Function.update s.fsts i fst j := fun j =>
    hu.touches.fsts j fun h => by cases h
  constructor
  case sound => exact hu.touches.sound
  case volume => exact hu.touches.disk.trans h.volume
  case nfst => exact hu.touches.nfst.trans h.nfst
  case stray => exact hu.touches.stray.trans h.stray
  case dir => exact hu.dirOk hd hnew
  case dop => exact hu.touches.lba _ _ h.dop
  case small =>
    rw [Fst.adbc, (hold 1 (by omega) (by decide)).word (by decide)]
    exact h.small
  case first => exact ⟨hfirst, by rw [hentries]; exact hlast.trans (Nat.le_succ n)⟩
  case marked => exact Or.inl hadd.marked
  case old =>
    intro k hk hlt
    exact (hold k (by omega) (by omega)).trans (h.old k hk hlt)
  case forest =>
    have hother : ∀ k, Known disk s.view k → (Function.update (fun k => treeOf (s.view.entry k)) 0
        (treeOf (u.view.entry 0)) k).name ≠ Fst.name fst := by
      intro k hk
      by_cases hzero : k = 0
      · rw [hzero, Function.update_self]
        show u.view.entryName 0 ≠ Fst.name fst
        rw [hnames 0 (by omega)]
        exact hnew 0 (by show 0 < n; omega)
      · rw [Function.update_of_ne hzero]
        exact hnew k (hbelow k hk)
    rw [hlive]
    refine (hadd.forest.new (fun hk => absurd (hbelow n hk) (lt_irrefl n)) 0 hother).congr ?_
    rintro k (hk | rfl)
    · have hlt := hbelow k hk
      rw [Function.update_of_ne hlt.ne]
      by_cases hzero : k = 0
      · rw [hzero, Function.update_self]
      · rw [Function.update_of_ne hzero, (hold k hlt hzero).treeOf_eq]
    · rw [Function.update_self, ← treeOf_createdFst, ← hfst]
      exact hu.new.treeOf_eq
  case file =>
    intro k hk hlt
    rw [hentries] at hlt
    rw [hfiles']
    by_cases hkn : k = n
    · rw [hkn, Function.update_self]
      exact (fileHas_createdFst ebcdic fn ft u.view hpos hle).keep hu.new fun _ _ => rfl
    · -- the blocks of another file are as they were
      have hlt' : k < n := by omega
      rw [Function.update_of_ne hkn]
      refine (h.file k hk hlt').keep (hold k hlt' (by omega)) fun b hb => ?_
      obtain ⟨hdirector, hallocmap⟩ := h.name_ne hk hlt'
      obtain ⟨lba, hlba, -⟩ := (h.forest.tree k (Or.inr ⟨hk, hlt'⟩)).present
        ⟨Fst.name (s.view.entry k), 0, b⟩ ⟨rfl, Nat.zero_le _, by
          show b * 1024 ^ 0 < Fst.adbc (s.view.entry k)
          rwa [pow_zero, Nat.mul_one]⟩
      have hlisted : s.view.lba ⟨Fst.name (s.view.entry k), 0, b⟩ ≠ none := by
        rw [hlba]
        exact Option.some_ne_none lba
      refine hu.touches.content _ hlisted ?_
      rintro (hname | hname)
      · exact hallocmap hname
      · exact hdirector hname
  case made =>
    intro k hk hlt
    rw [hentries] at hlt
    rw [hfiles']
    by_cases hkn : k = n
    · have hnewFst : SameFst (u.view.entry n) fst := hu.new
      rw [hkn, Function.update_self]
      refine ⟨hnewFst.name, ?_⟩
      exact (hnewFst.word (by decide)).trans (lrecl_createdFst ebcdic fn ft lrecl hle)
    · have hlt' : k < n := by omega
      rw [Function.update_of_ne hkn, hnames k hlt', Fst.lrecl,
        (hold k hlt' (by omega)).word (by decide)]
      exact h.made k hk hlt'
  case owner =>
    intro i' k hi'
    rw [howner'] at hi'
    rw [hfsts]
    by_cases hii : i' = i
    · rw [hii, Function.update_self] at hi'
      obtain rfl := Option.some.inj hi'
      rw [hii, Function.update_self]
      exact ⟨hlast, by rw [hentries]; exact Nat.lt_succ_self n, hu.new⟩
    · rw [Function.update_of_ne hii] at hi' ⊢
      obtain ⟨hk, hlt, hsame⟩ : Fst.aic (diskDir disk) ≤ k ∧ k < n ∧
        SameFst (s.view.entry k) (s.fsts i') := h.owner i' k hi'
      exact ⟨hk, by rw [hentries]; exact Nat.lt_succ_of_lt hlt,
        (hold k hlt (by omega)).trans hsame⟩
  case apart =>
    intro i₁ i₂ k h₁ h₂
    rw [howner'] at h₁ h₂
    -- no other caller has the entry that is new
    have hfresh : ∀ j, t.owner j ≠ some n := fun j hj => lt_irrefl n (h.owner j n hj).2.1
    by_cases hi₁ : i₁ = i
    · rw [hi₁, Function.update_self] at h₁
      by_cases hi₂ : i₂ = i
      · rw [hi₁, hi₂]
      · rw [Function.update_of_ne hi₂, ← h₁] at h₂
        exact absurd h₂ (hfresh i₂)
    · rw [Function.update_of_ne hi₁] at h₁
      by_cases hi₂ : i₂ = i
      · rw [hi₂, Function.update_self, ← h₁] at h₂
        exact absurd h₂.symm (hfresh i₁)
      · rw [Function.update_of_ne hi₂] at h₂
        exact h.apart i₁ i₂ k h₁ h₂

end VolumeOk

end Hvf
