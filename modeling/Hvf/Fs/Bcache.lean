/-
# The block cache

`cp/fs/bcache.c`.  A file has `FST.NLVL` levels of pointer blocks over its data
blocks, which are level 0; `bcache_read` looks a block up in the list of entries
and, where it is not there, reads the pointer block one level up first.  An entry
is added before its block is read, so a failure leaves one without data behind.

`disk` is what the device holds, and `fails n` the result of the `n`th allocation
or block read: 0, or an error.  Recursion is on the number of levels above the
block.
-/

import Hvf.Errno
import Hvf.Lib.PtrTree
import Hvf.Lib.StepRun

namespace Hvf

open PtrTree StepRun

/-- The bytes of a block. -/
abbrev DiskBlock := ℕ → UInt8

/-- The pointer `off` of a block. -/
def ptrAt (ptrs : DiskBlock) (off : ℕ) : ℕ :=
  (((ptrs (4 * off)).toNat * 256 + (ptrs (4 * off + 1)).toNat) * 256
    + (ptrs (4 * off + 2)).toNat) * 256 + (ptrs (4 * off + 3)).toNat

/-- A pointer in a pointer block is four bytes. -/
theorem ptrAt_lt (ptrs : DiskBlock) (off : ℕ) : ptrAt ptrs off < 2 ^ 32 := by
  have h0 := (ptrs (4 * off)).toNat_lt
  have h1 := (ptrs (4 * off + 1)).toNat_lt
  have h2 := (ptrs (4 * off + 2)).toNat_lt
  have h3 := (ptrs (4 * off + 3)).toNat_lt
  rw [ptrAt]
  omega

/-- **A file as its blocks are found**: `FST.NLVL`, `FST.FOP` and `fs->ADT.DBSIZ` of a
`struct file`. -/
structure EdfFile where
  nlvl : ℕ
  fop : ℕ
  dbsiz : ℕ

/-- **A cached block** (`struct bcache_entry`): its level and number in the file's tree,
where it is on the disk, and its data once it was read. -/
structure BcacheEntry where
  level : ℕ
  blk : ℕ
  lba : ℕ
  data : Option DiskBlock

/-- **The cache of a file**, `file->bcache`, and how many allocations and block reads there
were, which is what decides whether the next one fails. -/
structure Bcache where
  entries : List BcacheEntry
  calls : ℕ

/-- `__bcache_add`; the result is the place of the entry. -/
def bcacheAdd (fails : ℕ → Int) (level blk lba : ℕ) (s : Bcache) : Except Int ℕ × Bcache :=
  if fails s.calls ≠ 0 then (.error (-enomem), { s with calls := s.calls + 1 })
  else (.ok s.entries.length,
    { entries := s.entries ++ [{ level, blk, lba, data := none }], calls := s.calls + 1 })

/-- `bcache_read` from `found` on; `cur` is entry `i`. -/
def bcacheFound (disk : ℕ → DiskBlock) (fails : ℕ → Int) (i : ℕ) (s : Bcache) :
    Except Int DiskBlock × Bcache :=
  match s.entries[i]? with
  | none => (.error (-efault), s)
  | some cur =>
    match cur.data with
    | some data => (.ok data, s)
    | none =>
      if fails s.calls ≠ 0 then (.error (-enomem), { s with calls := s.calls + 1 })
      else if fails (s.calls + 1) ≠ 0 then
        (.error (fails (s.calls + 1)), { s with calls := s.calls + 2 })
      else
        let buf := disk cur.lba
        let entries := s.entries.set i { cur with data := some buf }
        (.ok buf, { entries, calls := s.calls + 2 })

/-- The search of `bcache_read`. -/
def bcacheFind (level blk : ℕ) (s : Bcache) : Option ℕ :=
  s.entries.findIdx? fun cur => cur.level = level && cur.blk = blk

/-- `bcache_read` of a block with `up` levels above it. -/
def bcacheReadUp (file : EdfFile) (disk : ℕ → DiskBlock) (fails : ℕ → Int) :
    ℕ → ℕ → Bcache → Except Int DiskBlock × Bcache
  | 0, blk, s =>
    match bcacheFind file.nlvl blk s with
    | some i => bcacheFound disk fails i s
    | none =>
      match bcacheAdd fails file.nlvl 0 file.fop s with
      | (.error e, s) => (.error e, s)
      | (.ok i, s) => bcacheFound disk fails i s
  | up + 1, blk, s =>
    match bcacheFind (file.nlvl - (up + 1)) blk s with
    | some i => bcacheFound disk fails i s
    | none =>
      match bcacheReadUp file disk fails up (blk / (file.dbsiz / 4)) s with
      | (.error e, s) => (.error e, s)
      | (.ok ptrs, s) =>
        let lba := ptrAt ptrs (blk % (file.dbsiz / 4))
        match bcacheAdd fails (file.nlvl - (up + 1)) blk lba s with
        | (.error e, s) => (.error e, s)
        | (.ok i, s) => bcacheFound disk fails i s

/-- `bcache_read`. -/
def bcacheRead (file : EdfFile) (disk : ℕ → DiskBlock) (fails : ℕ → Int) (level blk : ℕ)
    (s : Bcache) : Except Int DiskBlock × Bcache :=
  bcacheReadUp file disk fails (file.nlvl - level) blk s

/-! ### Entries -/

section Entries

variable {file : EdfFile} {disk : ℕ → DiskBlock} {fails : ℕ → Int} {s : Bcache}

/-- Block `blk` with `up` levels above it, found from `FST.FOP`. -/
def EdfFile.lba (file : EdfFile) (disk : ℕ → DiskBlock) (up blk : ℕ) : ℕ :=
  node (fun lba off => ptrAt (disk lba) off) (file.dbsiz / 4) file.fop up blk

/-- What an entry of the cache is looked up by: its level and its block number in that level. -/
def BcacheEntry.key (e : BcacheEntry) : ℕ × ℕ := (e.level, e.blk)

/-- The keys of the cached blocks, in the order of the list. -/
def Bcache.keys (s : Bcache) : List (ℕ × ℕ) := s.entries.map BcacheEntry.key

/-- **An entry has the place of its block** in the file's tree, and the disk's data there,
if it has data. -/
structure EntryOk (file : EdfFile) (disk : ℕ → DiskBlock) (e : BcacheEntry) : Prop where
  lba : e.lba = file.lba disk (file.nlvl - e.level) e.blk
  data : ∀ data, e.data = some data → data = disk e.lba

/-- **The invariant of the cache**: every entry holds the block that its key names in the file's
tree, and no key is cached twice. -/
structure BcacheInv (file : EdfFile) (disk : ℕ → DiskBlock) (s : Bcache) : Prop where
  entries : ∀ e ∈ s.entries, EntryOk file disk e
  keys : s.keys.Nodup

/-- An entry found is an entry of the list with the key asked for. -/
theorem bcacheFind_some {level blk i : ℕ} (h : bcacheFind level blk s = some i) :
    ∃ cur, s.entries[i]? = some cur ∧ cur.key = (level, blk) := by
  obtain ⟨hi, hcur, -⟩ := List.findIdx?_eq_some_iff_getElem.1 h
  refine ⟨_, List.getElem?_eq_getElem hi, ?_⟩
  simp only [Bool.and_eq_true, decide_eq_true_eq] at hcur
  exact Prod.ext hcur.1 hcur.2

/-- Where the search finds nothing, the key is not cached. -/
theorem bcacheFind_none {level blk : ℕ} (h : bcacheFind level blk s = none) :
    (level, blk) ∉ s.keys := by
  intro hmem
  obtain ⟨e, he, hkey⟩ := List.mem_map.1 hmem
  have hnot := List.findIdx?_eq_none_iff.1 h e he
  obtain ⟨hlevel, hblk⟩ := Prod.mk.inj hkey
  simp [hlevel, hblk] at hnot

/-- **A block is taken from its entry,** or read into it. -/
theorem bcacheFound_spec (fails : ℕ → Int) (h : BcacheInv file disk s) {i : ℕ} {cur : BcacheEntry}
    (hcur : s.entries[i]? = some cur) :
    BcacheInv file disk (bcacheFound disk fails i s).2 ∧
      (bcacheFound disk fails i s).2.keys = s.keys ∧
      s.calls ≤ (bcacheFound disk fails i s).2.calls ∧
      (∀ data, (bcacheFound disk fails i s).1 = .ok data →
        data = disk (file.lba disk (file.nlvl - cur.level) cur.blk)) ∧
      ((∀ n, s.calls ≤ n → fails n = 0) →
        ∃ data, (bcacheFound disk fails i s).1 = .ok data) := by
  have hok := h.entries cur (List.mem_of_getElem? hcur)
  unfold bcacheFound
  rw [hcur]
  dsimp only
  cases hdata : cur.data with
  | some data =>
    refine ⟨h, rfl, le_rfl, ?_, fun _ => ⟨data, rfl⟩⟩
    rintro data' heq
    obtain rfl : data = data' := Except.ok.inj heq
    rw [hok.data _ hdata, hok.lba]
  | none =>
    dsimp only
    split_ifs with hmalloc hread
    · exact ⟨⟨h.entries, h.keys⟩, rfl, Nat.le_add_right .., fun _ h => h.elim,
        fun hall => absurd (hall _ le_rfl) hmalloc⟩
    · exact ⟨⟨h.entries, h.keys⟩, rfl, Nat.le_add_right .., fun _ h => h.elim,
        fun hall => absurd (hall _ (Nat.le_add_right ..)) hread⟩
    · have hkeys : (s.entries.set i { cur with data := some (disk cur.lba) }).map BcacheEntry.key
          = s.keys := by
        obtain ⟨hi, rfl⟩ := List.getElem?_eq_some_iff.1 hcur
        rw [List.map_set, Bcache.keys]
        have hi' : i < (s.entries.map BcacheEntry.key).length := by simpa using hi
        have hsame := List.set_getElem_self hi'
        rwa [List.getElem_map] at hsame
      refine ⟨⟨?_, ?_⟩, hkeys, Nat.le_add_right .., ?_, fun _ => ⟨_, rfl⟩⟩
      · rintro e he
        rcases List.mem_or_eq_of_mem_set he with he | rfl
        · exact h.entries e he
        · exact ⟨hok.lba, fun data heq => (Option.some.inj heq).symm⟩
      · rw [Bcache.keys, hkeys]
        exact h.keys
      · rintro data heq
        rw [← Except.ok.inj heq, hok.lba]

/-- An entry is added for a block that has none. -/
theorem bcacheAdd_spec (fails : ℕ → Int) (h : BcacheInv file disk s) {level blk lba : ℕ}
    (hnew : (level, blk) ∉ s.keys) (hlba : lba = file.lba disk (file.nlvl - level) blk) :
    (bcacheAdd fails level blk lba s = (.error (-enomem), { s with calls := s.calls + 1 }) ∧
      fails s.calls ≠ 0) ∨
    ∃ s', bcacheAdd fails level blk lba s = (.ok s.entries.length, s') ∧ BcacheInv file disk s' ∧
      s'.keys = s.keys ++ [(level, blk)] ∧ s'.calls = s.calls + 1 ∧
      s'.entries[s.entries.length]? = some { level, blk, lba, data := none } := by
  unfold bcacheAdd
  split_ifs with hmalloc
  · exact Or.inl ⟨rfl, hmalloc⟩
  · have hkeys : (s.entries ++ [(⟨level, blk, lba, none⟩ : BcacheEntry)]).map BcacheEntry.key
        = s.keys ++ [(level, blk)] := by
      rw [List.map_append]
      rfl
    refine Or.inr ⟨_, rfl, ⟨?_, ?_⟩, hkeys, rfl, List.getElem?_concat_length ..⟩
    · rintro e he
      rcases List.mem_append.1 he with he | he
      · exact h.entries e he
      · obtain rfl := List.mem_singleton.1 he
        exact ⟨hlba, nofun⟩
    · rw [Bcache.keys, hkeys]
      refine List.nodup_append.2 ⟨h.keys, List.nodup_singleton _, ?_⟩
      rintro k hk k' hk' rfl
      exact hnew (List.mem_singleton.1 hk' ▸ hk)

/-- What a call of `bcache_read` for a block with `up` levels above it does: only
entries of the level of the block and above are added. -/
structure ReadSpec (file : EdfFile) (disk : ℕ → DiskBlock) (fails : ℕ → Int) (up blk : ℕ)
    (s : Bcache) (r : Except Int DiskBlock × Bcache) : Prop where
  inv : BcacheInv file disk r.2
  keys : ∃ ks, r.2.keys = s.keys ++ ks ∧ ∀ k ∈ ks, file.nlvl - up ≤ k.1
  calls : s.calls ≤ r.2.calls
  data : ∀ data, r.1 = .ok data → data = disk (file.lba disk up blk)
  ok : (∀ n, s.calls ≤ n → fails n = 0) → ∃ data, r.1 = .ok data

/-- An entry is there. -/
theorem ReadSpec.found (fails : ℕ → Int) (h : BcacheInv file disk s) {up blk i : ℕ}
    (hup : up ≤ file.nlvl)
    {cur : BcacheEntry} (hcur : s.entries[i]? = some cur)
    (hkey : cur.key = (file.nlvl - up, blk)) :
    ReadSpec file disk fails up blk s (bcacheFound disk fails i s) := by
  obtain ⟨hlevel, hblk⟩ := Prod.mk.inj hkey
  obtain ⟨hinv, hkeys, hcalls, hdata, hok⟩ := bcacheFound_spec fails h hcur
  refine ⟨hinv, ⟨[], by rw [hkeys, List.append_nil], by simp⟩, hcalls, ?_, hok⟩
  rwa [hlevel, hblk, Nat.sub_sub_self hup] at hdata

/-- An entry is added behind those that the call added before. -/
theorem ReadSpec.add {s₀ : Bcache} {ks : List (ℕ × ℕ)} (h : BcacheInv file disk s) {up blk : ℕ}
    (hup : up ≤ file.nlvl) (hnew : (file.nlvl - up, blk) ∉ s.keys)
    (hkeys : s.keys = s₀.keys ++ ks) (hks : ∀ k ∈ ks, file.nlvl - up ≤ k.1)
    (hcalls : s₀.calls ≤ s.calls) :
    ReadSpec file disk fails up blk s₀
      (match bcacheAdd fails (file.nlvl - up) blk (file.lba disk up blk) s with
        | (.error e, s) => (.error e, s)
        | (.ok i, s) => bcacheFound disk fails i s) := by
  rcases bcacheAdd_spec fails h hnew (by rw [Nat.sub_sub_self hup]) with
    ⟨hadd, hfail⟩ | ⟨s', hadd, hinv, hkeys', hcalls', hentry⟩
  · rw [hadd]
    exact {
      inv := ⟨h.entries, h.keys⟩
      keys := ⟨ks, hkeys, hks⟩
      calls := Nat.le_succ_of_le hcalls
      data := fun _ h => nomatch h
      ok := fun hall => absurd (hall _ hcalls) hfail }
  · rw [hadd]
    have hread := ReadSpec.found fails hinv hup hentry rfl
    obtain ⟨ks', hks', hlevels⟩ := hread.keys
    exact {
      inv := hread.inv
      keys := by
        refine ⟨ks ++ [(file.nlvl - up, blk)] ++ ks', ?_, ?_⟩
        · rw [hks', hkeys', hkeys]
          simp only [List.append_assoc]
        · rintro k hk
          rcases List.mem_append.1 hk with hk | hk
          · rcases List.mem_append.1 hk with hk | hk
            · exact hks k hk
            · rw [List.mem_singleton.1 hk]
          · exact hlevels k hk
      calls := hcalls.trans ((Nat.le_of_lt (by rw [hcalls']; exact Nat.lt_succ_self _)).trans
        hread.calls)
      data := hread.data
      ok := fun hall => hread.ok fun n hn => hall n (by omega) }

/-- **What a call of `bcache_read` does,** by induction on the levels above the
block. -/
theorem bcacheReadUp_spec (fails : ℕ → Int) {up blk : ℕ} (h : BcacheInv file disk s)
    (hup : up ≤ file.nlvl)
    (hblk : blk < (file.dbsiz / 4) ^ up) :
    ReadSpec file disk fails up blk s (bcacheReadUp file disk fails up blk s) := by
  induction up generalizing blk s with
  | zero =>
    obtain rfl : blk = 0 := by simpa using hblk
    rw [bcacheReadUp]
    cases hfind : bcacheFind file.nlvl 0 s with
    | some i =>
      obtain ⟨cur, hcur, hkey⟩ := bcacheFind_some hfind
      exact .found fails h hup hcur hkey
    | none =>
      have hkeys : s.keys = s.keys ++ [] := (List.append_nil _).symm
      exact .add h hup (bcacheFind_none hfind) hkeys (by simp) le_rfl
  | succ up ih =>
    rw [bcacheReadUp]
    cases hfind : bcacheFind (file.nlvl - (up + 1)) blk s with
    | some i =>
      obtain ⟨cur, hcur, hkey⟩ := bcacheFind_some hfind
      exact .found fails h hup hcur hkey
    | none =>
      have hparent := ih h (by omega)
        (Nat.div_lt_of_lt_mul (n := file.dbsiz / 4) (by rwa [pow_succ'] at hblk))
      generalize bcacheReadUp file disk fails up (blk / (file.dbsiz / 4)) s = r at hparent
      obtain ⟨ks, hks, hlevels⟩ := hparent.keys
      obtain ⟨res, s'⟩ := r
      cases res with
      | error e =>
        exact {
          inv := hparent.inv
          keys := ⟨ks, hks, fun k hk => by have := hlevels k hk; omega⟩
          calls := hparent.calls
          data := fun _ h => nomatch h
          ok := fun hall => by
            obtain ⟨_, h⟩ := hparent.ok hall
            exact nomatch h }
      | ok ptrs =>
        have hptrs := hparent.data ptrs rfl
        have hlba : ptrAt ptrs (blk % (file.dbsiz / 4)) = file.lba disk (up + 1) blk := by
          rw [hptrs]
          rfl
        dsimp only
        rw [hlba]
        have hlower : ∀ k ∈ ks, file.nlvl - (up + 1) ≤ k.1 :=
          fun k hk => by have := hlevels k hk; omega
        refine .add hparent.inv hup ?_ hks hlower hparent.calls
        -- the call one level up adds no entry of this level
        rw [hks, List.mem_append]
        rintro (hmem | hmem)
        · exact bcacheFind_none hfind hmem
        · have := hlevels _ hmem
          dsimp only at this
          omega

/-! ### Errors -/

/-- One of the allocations and reads between two states failed. -/
def Failed (fails : ℕ → Int) (s s' : Bcache) : Prop :=
  ∃ n, s.calls ≤ n ∧ n < s'.calls ∧ fails n ≠ 0

/-- A failure behind a later state is a failure behind an earlier one. -/
theorem Failed.mono {s₀ s' : Bcache} (h : Failed fails s s') (hle : s₀.calls ≤ s.calls) :
    Failed fails s₀ s' := by
  obtain ⟨n, hn, hlt, hfail⟩ := h
  exact ⟨n, hle.trans hn, hlt, hfail⟩

/-- An error on a cached entry is the error of a block read of this call. -/
theorem bcacheFound_error {i : ℕ} {cur : BcacheEntry} {e : Int} {s' : Bcache}
    (hcur : s.entries[i]? = some cur) (h : bcacheFound disk fails i s = (.error e, s')) :
    Failed fails s s' := by
  unfold bcacheFound at h
  rw [hcur] at h
  dsimp only at h
  split at h
  case h_1 => cases h
  case h_2 =>
    split_ifs at h with hmalloc hread
    · obtain ⟨-, rfl⟩ := Prod.mk.inj h
      exact ⟨s.calls, le_rfl, Nat.lt_succ_self _, hmalloc⟩
    · obtain ⟨-, rfl⟩ := Prod.mk.inj h
      exact ⟨s.calls + 1, Nat.le_succ _, Nat.lt_succ_self _, hread⟩
    · cases h

/-- An error on the way through a new entry is that of the allocation or of the block read. -/
theorem bcacheAdd_error {level blk lba : ℕ} {e : Int} {s' : Bcache}
    (h : (match bcacheAdd fails level blk lba s with
      | (.error e, s) => (.error e, s)
      | (.ok i, s) => bcacheFound disk fails i s) = (.error e, s')) : Failed fails s s' := by
  unfold bcacheAdd at h
  split_ifs at h with hmalloc
  · obtain ⟨-, rfl⟩ := Prod.mk.inj h
    exact ⟨s.calls, le_rfl, Nat.lt_succ_self _, hmalloc⟩
  · refine (bcacheFound_error (s := ⟨s.entries ++ [⟨level, blk, lba, none⟩], s.calls + 1⟩)
      (List.getElem?_concat_length ..) h).mono (Nat.le_succ _)

/-- **An error of `bcache_read`** comes from an allocation or a read that failed. -/
theorem bcacheReadUp_error {up blk : ℕ} (h : BcacheInv file disk s) (hup : up ≤ file.nlvl)
    (hblk : blk < (file.dbsiz / 4) ^ up) {e : Int} {s' : Bcache}
    (hread : bcacheReadUp file disk fails up blk s = (.error e, s')) : Failed fails s s' := by
  induction up generalizing blk e s' with
  | zero =>
    rw [bcacheReadUp] at hread
    split at hread
    case h_1 i hfind =>
      obtain ⟨cur, hcur, -⟩ := bcacheFind_some hfind
      exact bcacheFound_error hcur hread
    case h_2 => exact bcacheAdd_error hread
  | succ up ih =>
    rw [bcacheReadUp] at hread
    split at hread
    case h_1 i hfind =>
      obtain ⟨cur, hcur, -⟩ := bcacheFind_some hfind
      exact bcacheFound_error hcur hread
    case h_2 =>
      have hblk' : blk / (file.dbsiz / 4) < (file.dbsiz / 4) ^ up :=
        Nat.div_lt_of_lt_mul (n := file.dbsiz / 4) (by rwa [pow_succ'] at hblk)
      have hparent := bcacheReadUp_spec fails h (by omega : up ≤ file.nlvl) hblk'
      split at hread
      case h_1 e' s₁ hp =>
        obtain ⟨-, rfl⟩ := Prod.mk.inj hread
        exact ih (by omega) hblk' hp
      case h_2 ptrs s₁ hp =>
        rw [hp] at hparent
        exact (bcacheAdd_error hread).mono hparent.calls

/-- **The cache is transparent.**  After any calls for data blocks of the file,
whichever allocations and reads failed, no block has two entries; a call that
returns no error returns the data block that the walk from `FST.FOP` ends at; and
a call in which nothing fails returns no error. -/
theorem bcache_transparent (file : EdfFile) (disk : ℕ → DiskBlock) (fails : ℕ → Int) {bs : List ℕ}
    {s : Bcache} (hrun : Run (fun s b u => b < (file.dbsiz / 4) ^ file.nlvl ∧
      u = (bcacheRead file disk fails 0 b s).2) ⟨[], 0⟩ bs s) :
    s.keys.Nodup ∧ ∀ b < (file.dbsiz / 4) ^ file.nlvl,
      (∀ data, (bcacheRead file disk fails 0 b s).1 = .ok data →
        data = disk (walk (fun lba off => ptrAt (disk lba) off) (file.dbsiz / 4) file.nlvl
          file.fop b)) ∧
      ((∀ n, s.calls ≤ n → fails n = 0) →
        ∃ data, (bcacheRead file disk fails 0 b s).1 = .ok data) := by
  have hinv : BcacheInv file disk s := by
    refine hrun.invariant (P := BcacheInv file disk) ⟨by simp, List.nodup_nil⟩ ?_
    rintro s b u hs ⟨hb, rfl⟩
    exact (bcacheReadUp_spec fails hs le_rfl hb).inv
  refine ⟨hinv.keys, fun b hb => ?_⟩
  have hread := bcacheReadUp_spec fails hinv le_rfl hb
  rw [walk_eq_node]
  exact ⟨hread.data, hread.ok⟩

/-- A disk with a pointer to block 9 in block 7. -/
def pointerDisk (lba : ℕ) : DiskBlock := fun i =>
  if lba = 7 then if i = 3 then 9 else 0 else UInt8.ofNat lba

/-- The sixth call, a block read, fails. -/
def sixthFails (n : ℕ) : Int := if n = 5 then -euchck else 0

/-- The read of a data block fails and is done again: the second call returns the block, and
its key is cached once. -/
theorem bcache_transparent_retry :
    ∃ data, (bcacheRead ⟨1, 7, 4096⟩ pointerDisk sixthFails 0 0
      (bcacheRead ⟨1, 7, 4096⟩ pointerDisk sixthFails 0 0 ⟨[], 0⟩).2).1 = .ok data ∧
      data = pointerDisk 9 := by
  have hcalls : (bcacheRead ⟨1, 7, 4096⟩ pointerDisk sixthFails 0 0 ⟨[], 0⟩).2.calls = 6 := by
    decide +kernel
  have hread := (bcache_transparent ⟨1, 7, 4096⟩ pointerDisk sixthFails
    (Run.nil.snoc (l := 0) ⟨by decide, rfl⟩)).2 0 (by decide)
  obtain ⟨data, hdata⟩ := hread.2 fun n hn => if_neg (by omega)
  exact ⟨data, hdata, hread.1 data hdata⟩

end Entries

end Hvf
