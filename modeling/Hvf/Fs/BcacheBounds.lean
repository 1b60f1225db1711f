/-
# Blocks that a file does not have

`bcache_read` of `cp/fs/bcache.c` again, for any block number.  A file with `NLVL`
levels of pointer blocks has `1024 ^ NLVL` data blocks.  The number of a block behind
them is still above 0 when the walk arrives at level `NLVL`, where it is ignored: the
block at `FST.FOP` is added as block 0 once more and the walk goes down from there.

The call answers with the data of another block unless an allocation or a read fails on
the way (`bcache_bounds_iff`).
-/

import Hvf.Fs.Bcache

namespace Hvf

open StepRun

/-- `file->bcache` at first.  `__init_dir` adds block 0 of the directory, which is at
`ADT.DOP`. -/
def Bcache.initial (dop : Option ℕ) : Bcache where
  entries := dop.toList.map fun lba => { level := 0, blk := 0, lba, data := none }
  calls := 0

/-- A file of a mounted file system, whose `ADT.DBSIZ` is 4096. -/
def mountedFile (nlvl fop : ℕ) : EdfFile := { nlvl, fop, dbsiz := 4096 }

/-- The block is in the tree of a file with `nlvl` levels of pointer blocks. -/
def InTree (nlvl : ℕ) (key : ℕ × ℕ) : Prop :=
  key.1 ≤ nlvl ∧ key.2 < 1024 ^ (nlvl - key.1)

/-- **A run of reads**: the cache, and the data blocks asked for with the answers. -/
structure BlockReads where
  cache : Bcache
  answers : List (ℕ × Except Int DiskBlock)

/-- `bcache_read` of data block `b`. -/
def readsBlock (file : EdfFile) (disk : ℕ → DiskBlock) (fails : ℕ → Int) (s : BlockReads) (b : ℕ)
    (u : BlockReads) : Prop :=
  u = { cache := (bcacheRead file disk fails 0 b s.cache).2
        answers := s.answers ++ [(b, (bcacheRead file disk fails 0 b s.cache).1)] }

/-- No call for a block that the file does not have was answered, and the cache has
entries for blocks of the tree only. -/
structure OnlyBlocks (nlvl : ℕ) (s : BlockReads) : Prop where
  refused : ∀ a ∈ s.answers, 1024 ^ nlvl ≤ a.1 → ∃ e, a.2 = .error e
  entries : ∀ key ∈ s.cache.keys, InTree nlvl key

/-- The allocations and reads for the block at `FST.FOP`: its entry, its page and its
data, and where there is a level below, the entry there. -/
def rootCalls : ℕ → ℕ
  | 0 => 3
  | _ + 1 => 4

/-- One of the first calls fails. -/
def RootFails (fails : ℕ → Int) (nlvl calls : ℕ) : Prop :=
  ∃ n < rootCalls nlvl, fails (calls + n) ≠ 0

/-- The file has the block, or the block at `FST.FOP` is not read or not followed. -/
def InFileOrFails (fails : ℕ → Int) (nlvl : ℕ) (s : BlockReads) (b : ℕ) : Prop :=
  b < 1024 ^ nlvl ∨ RootFails fails nlvl s.cache.calls

section

variable {disk : ℕ → DiskBlock} {fails : ℕ → Int} {s : Bcache} {nlvl fop : ℕ}

/-! ### Entries -/

/-- Reading a found entry changes no key. -/
theorem bcacheFound_keys (disk : ℕ → DiskBlock) (fails : ℕ → Int) (i : ℕ) (s : Bcache) :
    (bcacheFound disk fails i s).2.keys = s.keys := by
  unfold bcacheFound
  split
  case h_1 => rfl
  case h_2 cur hcur =>
    split
    case h_1 => rfl
    case h_2 =>
      split_ifs
      · rfl
      · rfl
      · obtain ⟨hi, rfl⟩ := List.getElem?_eq_some_iff.1 hcur
        have hi' : i < s.keys.length := by simpa [Bcache.keys] using hi
        have hset : s.keys.set i s.keys[i] = s.keys := List.set_getElem_self hi'
        simpa [Bcache.keys, List.map_set, BcacheEntry.key] using hset

/-- An entry is added and its block is read. -/
def bcacheNew (disk : ℕ → DiskBlock) (fails : ℕ → Int) (level blk lba : ℕ) (s : Bcache) :
    Except Int DiskBlock × Bcache :=
  match bcacheAdd fails level blk lba s with
  | (.error e, s) => (.error e, s)
  | (.ok i, s) => bcacheFound disk fails i s

/-- The steps of a new entry, with the read that may fail: the entry stays in the list, its
buffer marked unread. -/
theorem bcacheNew_eq (disk : ℕ → DiskBlock) (fails : ℕ → Int) (level blk lba : ℕ) (s : Bcache) :
    bcacheNew disk fails level blk lba s =
      if fails s.calls ≠ 0 then (.error (-enomem), { s with calls := s.calls + 1 })
      else if fails (s.calls + 1) ≠ 0 then
        (.error (-enomem), ⟨s.entries ++ [⟨level, blk, lba, none⟩], s.calls + 2⟩)
      else if fails (s.calls + 2) ≠ 0 then
        (.error (fails (s.calls + 2)), ⟨s.entries ++ [⟨level, blk, lba, none⟩], s.calls + 3⟩)
      else (.ok (disk lba), ⟨s.entries ++ [⟨level, blk, lba, some (disk lba)⟩], s.calls + 3⟩) := by
  unfold bcacheNew bcacheAdd
  split_ifs with hmalloc hpage hread
  · rfl
  · simp [bcacheFound, hpage]
  · simp [bcacheFound, hpage, hread]
  · simp [bcacheFound, hpage, hread]

/-- There is no entry, or one more, and the block is there after three calls that do
not fail. -/
theorem bcacheNew_cases (disk : ℕ → DiskBlock) (fails : ℕ → Int) (level blk lba : ℕ) (s : Bcache) :
    (fails s.calls ≠ 0 ∧ (∃ e, (bcacheNew disk fails level blk lba s).1 = .error e) ∧
      (bcacheNew disk fails level blk lba s).2.keys = s.keys) ∨
    (fails s.calls = 0 ∧
      (bcacheNew disk fails level blk lba s).2.keys = s.keys ++ [(level, blk)] ∧
      ((fails (s.calls + 1) = 0 ∧ fails (s.calls + 2) = 0 ∧
          (bcacheNew disk fails level blk lba s).1 = .ok (disk lba) ∧
          (bcacheNew disk fails level blk lba s).2.calls = s.calls + 3) ∨
        (fails (s.calls + 1) ≠ 0 ∨ fails (s.calls + 2) ≠ 0) ∧
          ∃ e, (bcacheNew disk fails level blk lba s).1 = .error e)) := by
  have hkeys : ∀ data c, (Bcache.mk (s.entries ++ [⟨level, blk, lba, data⟩]) c).keys
      = s.keys ++ [(level, blk)] := by
    intro data c
    rw [Bcache.keys, List.map_append]
    rfl
  rw [bcacheNew_eq]
  by_cases hmalloc : fails s.calls ≠ 0
  · rw [if_pos hmalloc]
    exact Or.inl ⟨hmalloc, ⟨_, rfl⟩, rfl⟩
  · rw [if_neg hmalloc]
    refine Or.inr ⟨not_not.1 hmalloc, ?_⟩
    by_cases hpage : fails (s.calls + 1) ≠ 0
    · rw [if_pos hpage]
      exact ⟨hkeys _ _, Or.inr ⟨Or.inl hpage, _, rfl⟩⟩
    · rw [if_neg hpage]
      by_cases hread : fails (s.calls + 2) ≠ 0
      · rw [if_pos hread]
        exact ⟨hkeys _ _, Or.inr ⟨Or.inr hread, _, rfl⟩⟩
      · rw [if_neg hread]
        exact ⟨hkeys _ _, Or.inl ⟨not_not.1 hpage, not_not.1 hread, rfl, rfl⟩⟩

/-- A key that is cached stays cached. -/
theorem bcacheNew_mem {level blk lba : ℕ} {key : ℕ × ℕ} (h : key ∈ s.keys) :
    key ∈ (bcacheNew disk fails level blk lba s).2.keys := by
  rcases bcacheNew_cases disk fails level blk lba s with ⟨-, -, hkeys⟩ | ⟨-, hkeys, -⟩
  · rw [hkeys]
    exact h
  · rw [hkeys]
    exact List.mem_append_left _ h

/-- If the new key is in the tree, every key of the cache stays in it. -/
theorem bcacheNew_inTree {level blk lba : ℕ} (h : ∀ key ∈ s.keys, InTree nlvl key)
    (hnew : InTree nlvl (level, blk)) :
    ∀ key ∈ (bcacheNew disk fails level blk lba s).2.keys, InTree nlvl key := by
  rcases bcacheNew_cases disk fails level blk lba s with ⟨-, -, hkeys⟩ | ⟨-, hkeys, -⟩
  · rw [hkeys]
    exact h
  · rw [hkeys]
    intro key hkey
    rcases List.mem_append.1 hkey with hold | hlast
    · exact h key hold
    · rw [List.mem_singleton.1 hlast]
      exact hnew

/-- A block of the tree, by the levels above it. -/
theorem inTree_iff {up blk : ℕ} (hup : up ≤ nlvl) :
    InTree nlvl (nlvl - up, blk) ↔ blk < 1024 ^ up := by
  rw [InTree, Nat.sub_sub_self hup]
  exact and_iff_right (Nat.sub_le _ _)

/-- No entry is found for a block that is not in the tree. -/
theorem bcacheFind_outside (h : ∀ key ∈ s.keys, InTree nlvl key) {up blk : ℕ} (hup : up ≤ nlvl)
    (hblk : 1024 ^ up ≤ blk) : bcacheFind (nlvl - up) blk s = none := by
  cases hfind : bcacheFind (nlvl - up) blk s with
  | none => rfl
  | some i =>
    obtain ⟨cur, hcur, hkey⟩ := bcacheFind_some hfind
    have hmem : (nlvl - up, blk) ∈ s.keys :=
      hkey ▸ List.mem_map_of_mem (List.mem_of_getElem? hcur)
    exact absurd ((inTree_iff hup).1 (h _ hmem)) (Nat.not_lt.2 hblk)

/-! ### One call -/

/-- The step of the recursion, with the entry of the block. -/
theorem bcacheReadUp_succ {up blk : ℕ} (hfind : bcacheFind (nlvl - (up + 1)) blk s = none) :
    bcacheReadUp (mountedFile nlvl fop) disk fails (up + 1) blk s =
      match bcacheReadUp (mountedFile nlvl fop) disk fails up (blk / 1024) s with
      | (.error e, s) => (.error e, s)
      | (.ok ptrs, s) =>
        bcacheNew disk fails (nlvl - (up + 1)) blk (ptrAt ptrs (blk % 1024)) s := by
  have hptrs : (mountedFile nlvl fop).dbsiz / 4 = 1024 := by norm_num [mountedFile]
  rw [bcacheReadUp, hptrs, show (mountedFile nlvl fop).nlvl = nlvl from rfl, hfind]
  rfl

/-- **A block of the file** adds entries for blocks of the tree. -/
theorem bcacheReadUp_inside {up blk : ℕ} (h : ∀ key ∈ s.keys, InTree nlvl key) (hup : up ≤ nlvl)
    (hblk : blk < 1024 ^ up) :
    ∀ key ∈ (bcacheReadUp (mountedFile nlvl fop) disk fails up blk s).2.keys,
      InTree nlvl key := by
  induction up generalizing blk with
  | zero =>
    rw [bcacheReadUp]
    split
    case h_1 i hfind =>
      rw [bcacheFound_keys]
      exact h
    case h_2 => exact bcacheNew_inTree h ((inTree_iff (Nat.zero_le _)).2 (by norm_num))
  | succ up ih =>
    cases hfind : bcacheFind (nlvl - (up + 1)) blk s with
    | some i =>
      rw [bcacheReadUp, mountedFile, hfind]
      dsimp only
      rw [bcacheFound_keys]
      exact h
    | none =>
      rw [bcacheReadUp_succ hfind]
      have hparent := ih (by omega : up ≤ nlvl)
        (Nat.div_lt_of_lt_mul (by rwa [pow_succ'] at hblk))
      generalize bcacheReadUp (mountedFile nlvl fop) disk fails up (blk / 1024) s = r at hparent
      obtain ⟨res, s'⟩ := r
      cases res with
      | error e => exact hparent
      | ok ptrs => exact bcacheNew_inTree hparent ((inTree_iff hup).2 hblk)

/-- **What comes of a call for a block that is not in the tree.** It fails if the root's
allocations or reads fail; else it is answered with the root, or with the block that the
number left over leads to, and the cache gets a key from outside the tree. -/
structure OutsideRead (fails : ℕ → Int) (nlvl up : ℕ) (s : Bcache)
    (r : Except Int DiskBlock × Bcache) : Prop where
  error : RootFails fails up s.calls →
    (∃ e, r.1 = .error e) ∧ ∀ key ∈ r.2.keys, InTree nlvl key
  atRoot : up = 0 → ¬ RootFails fails up s.calls →
    (∃ data, r.1 = .ok data) ∧ r.2.calls = s.calls + 3 ∧ ∀ key ∈ r.2.keys, InTree nlvl key
  atLower : up ≠ 0 → ¬ RootFails fails up s.calls → ∃ key ∈ r.2.keys, ¬ InTree nlvl key

/-- The root of the tree is never outside: its number is 0. -/
theorem OutsideRead.root (h : ∀ key ∈ s.keys, InTree nlvl key) :
    OutsideRead fails nlvl 0 s (bcacheNew disk fails nlvl 0 fop s) := by
  have hin : ∀ key ∈ (bcacheNew disk fails nlvl 0 fop s).2.keys, InTree nlvl key :=
    bcacheNew_inTree h ((inTree_iff (Nat.zero_le _)).2 (by norm_num))
  constructor
  case error =>
    rintro ⟨n, hn, hfail⟩
    have hn : n < 3 := hn
    refine ⟨?_, hin⟩
    rcases bcacheNew_cases disk fails nlvl 0 fop s with
      ⟨-, herror, -⟩ | ⟨hmalloc, -, ⟨hpage, hread, -⟩ | ⟨-, herror⟩⟩
    · exact herror
    · interval_cases n
      · exact absurd hmalloc hfail
      · exact absurd hpage hfail
      · exact absurd hread hfail
    · exact herror
  case atRoot =>
    intro _ hnone
    rcases bcacheNew_cases disk fails nlvl 0 fop s with
      ⟨hmalloc, -⟩ | ⟨-, -, ⟨-, -, hok, hcalls⟩ | ⟨hfail, -⟩⟩
    · exact absurd ⟨0, by decide, hmalloc⟩ hnone
    · exact ⟨⟨_, hok⟩, hcalls, hin⟩
    · rcases hfail with hpage | hread
      · exact absurd ⟨1, by decide, hpage⟩ hnone
      · exact absurd ⟨2, by decide, hread⟩ hnone
  case atLower =>
    intro hne
    exact absurd rfl hne

/-- The level below the block at `FST.FOP`. -/
theorem rootFails_one {calls : ℕ} :
    RootFails fails 1 calls ↔ RootFails fails 0 calls ∨ fails (calls + 3) ≠ 0 := by
  constructor
  · rintro ⟨n, hn, hfail⟩
    have hn : n < 4 := hn
    rcases Nat.lt_succ_iff_lt_or_eq.1 hn with hlt | rfl
    · exact Or.inl ⟨n, hlt, hfail⟩
    · exact Or.inr hfail
  · rintro (⟨n, hn, hfail⟩ | hfail)
    · have hn : n < 3 := hn
      exact ⟨n, Nat.lt_succ_of_lt hn, hfail⟩
    · exact ⟨3, by decide, hfail⟩

/-- **A block that is not in the tree:** the walk adds an entry for it, or ends before
that with an error, or answers with the block at `FST.FOP`. -/
theorem bcacheReadUp_outside (fop : ℕ) (disk : ℕ → DiskBlock) (fails : ℕ → Int) {up blk : ℕ}
    (h : ∀ key ∈ s.keys, InTree nlvl key) (hup : up ≤ nlvl) (hblk : 1024 ^ up ≤ blk) :
    OutsideRead fails nlvl up s (bcacheReadUp (mountedFile nlvl fop) disk fails up blk s) := by
  induction up generalizing blk with
  | zero =>
    rw [bcacheReadUp, show (mountedFile nlvl fop).nlvl = nlvl - 0 from rfl,
      bcacheFind_outside h hup hblk]
    exact .root h
  | succ up ih =>
    rw [bcacheReadUp_succ (bcacheFind_outside h hup hblk)]
    have hblk' : 1024 ^ up ≤ blk / 1024 := by
      rw [pow_succ] at hblk
      exact (Nat.le_div_iff_mul_le (by norm_num)).2 hblk
    have hparent := ih (by omega : up ≤ nlvl) hblk'
    have hnot : ¬ InTree nlvl (nlvl - (up + 1), blk) :=
      fun hin => absurd ((inTree_iff hup).1 hin) (Nat.not_lt.2 hblk)
    generalize bcacheReadUp (mountedFile nlvl fop) disk fails up (blk / 1024) s = r at hparent
    obtain ⟨res, s'⟩ := r
    cases up with
    | zero =>
      -- the block above is the one at FST.FOP
      by_cases hroot : RootFails fails 0 s.calls
      · obtain ⟨⟨e, rfl⟩, hin⟩ := hparent.error hroot
        have hroot' := rootFails_one.2 (Or.inl hroot)
        exact ⟨fun _ => ⟨⟨e, rfl⟩, hin⟩, fun hup => absurd hup (Nat.succ_ne_zero 0),
          fun _ hnone => absurd hroot' hnone⟩
      · obtain ⟨⟨ptrs, rfl⟩, hcalls, hin⟩ := hparent.atRoot rfl hroot
        dsimp only at hcalls hin ⊢
        refine ⟨fun hfail => ?_, fun hup => absurd hup (Nat.succ_ne_zero 0), fun _ hnone => ?_⟩
        · have hmalloc := (rootFails_one.1 hfail).resolve_left hroot
          rw [← hcalls] at hmalloc
          rcases bcacheNew_cases disk fails (nlvl - (0 + 1)) blk (ptrAt ptrs (blk % 1024)) s' with
            ⟨-, herror, hkeys⟩ | ⟨hzero, -⟩
          · rw [hkeys]
            exact ⟨herror, hin⟩
          · exact absurd hzero hmalloc
        · have hmalloc : fails s'.calls = 0 := by
            rw [hcalls]
            by_contra hfail
            exact hnone (rootFails_one.2 (Or.inr hfail))
          rcases bcacheNew_cases disk fails (nlvl - (0 + 1)) blk (ptrAt ptrs (blk % 1024)) s' with
            ⟨hfail, -⟩ | ⟨-, hkeys, -⟩
          · exact absurd hmalloc hfail
          · refine ⟨_, ?_, hnot⟩
            rw [hkeys]
            exact List.mem_append_right _ (List.mem_singleton_self _)
    | succ up =>
      -- the four calls are the same ones
      constructor
      case error =>
        intro hroot
        obtain ⟨⟨e, rfl⟩, hin⟩ := hparent.error hroot
        exact ⟨⟨e, rfl⟩, hin⟩
      case atRoot => exact fun hup => absurd hup (Nat.succ_ne_zero _)
      case atLower =>
        intro _ hnone
        obtain ⟨key, hkey, hout⟩ := hparent.atLower (Nat.succ_ne_zero up) hnone
        refine ⟨key, ?_, hout⟩
        cases res with
        | error e => exact hkey
        | ok ptrs => exact bcacheNew_mem hkey

/-! ### Runs -/

/-- The cache of a file just opened holds the one block that came with its directory entry, and
that is in the tree. -/
theorem onlyBlocks_initial (nlvl : ℕ) (dop : Option ℕ) :
    OnlyBlocks nlvl ⟨Bcache.initial dop, []⟩ := by
  constructor
  case refused =>
    intro a ha
    exact absurd ha List.not_mem_nil
  case entries =>
    cases dop with
    | none =>
      intro key hkey
      exact absurd hkey List.not_mem_nil
    | some lba =>
      intro key hkey
      obtain rfl := List.mem_singleton.1 hkey
      exact ⟨Nat.zero_le _, Nat.pow_pos (by norm_num)⟩

/-- **A call keeps the property exactly when** the file has the block or the walk fails
at `FST.FOP`. -/
theorem onlyBlocks_step {s u : BlockReads} {b : ℕ} (h : OnlyBlocks nlvl s)
    (hstep : readsBlock (mountedFile nlvl fop) disk fails s b u) :
    OnlyBlocks nlvl u ↔ InFileOrFails fails nlvl s b := by
  subst hstep
  rw [bcacheRead, Nat.sub_zero]
  show OnlyBlocks nlvl ⟨(bcacheReadUp (mountedFile nlvl fop) disk fails nlvl b s.cache).2,
    s.answers ++ [(b, (bcacheReadUp (mountedFile nlvl fop) disk fails nlvl b s.cache).1)]⟩ ↔ _
  rcases Nat.lt_or_ge b (1024 ^ nlvl) with hin | hout
  · refine iff_of_true ⟨fun a ha hge => ?_, ?_⟩ (Or.inl hin)
    · rcases List.mem_append.1 ha with hold | hnew
      · exact h.refused a hold hge
      · obtain rfl := List.mem_singleton.1 hnew
        exact absurd hin (Nat.not_lt.2 hge)
    · exact bcacheReadUp_inside h.entries le_rfl hin
  · have hread := bcacheReadUp_outside fop disk fails h.entries le_rfl hout
    constructor
    · intro hu
      by_contra hnot
      have hnone : ¬ RootFails fails nlvl s.cache.calls := fun hroot => hnot (Or.inr hroot)
      by_cases hzero : nlvl = 0
      · obtain ⟨⟨data, hok⟩, -⟩ := hread.atRoot hzero hnone
        obtain ⟨e, he⟩ := hu.refused _ (List.mem_append_right _ (List.mem_singleton_self _)) hout
        rw [hok] at he
        exact nomatch he
      · obtain ⟨key, hkey, hbad⟩ := hread.atLower hzero hnone
        exact hbad (hu.entries key hkey)
    · intro hcond
      obtain ⟨herror, hkeys⟩ := hread.error (hcond.resolve_left (Nat.not_lt.2 hout))
      refine ⟨fun a ha hge => ?_, hkeys⟩
      rcases List.mem_append.1 ha with hold | hnew
      · exact h.refused a hold hge
      · obtain rfl := List.mem_singleton.1 hnew
        exact herror

end

/-- **No block is answered that the file does not have, and none gets an entry, exactly
when** every call of the run is for a block of the file or has one of its first calls
fail. -/
theorem bcache_bounds_iff (nlvl fop : ℕ) (disk : ℕ → DiskBlock) (fails : ℕ → Int)
    (dop : Option ℕ) {bs : List ℕ} {s : BlockReads}
    (hrun : Run (readsBlock (mountedFile nlvl fop) disk fails) ⟨.initial dop, []⟩ bs s) :
    (∀ bs' s', bs' <+: bs →
      Run (readsBlock (mountedFile nlvl fop) disk fails) ⟨.initial dop, []⟩ bs' s' →
        OnlyBlocks nlvl s') ↔
      Run (guarded (InFileOrFails fails nlvl) (readsBlock (mountedFile nlvl fop) disk fails))
        ⟨.initial dop, []⟩ bs s :=
  Run.always_iff (P := fun _ s => OnlyBlocks nlvl s) (fun _ _ _ _ hu hu' => hu.trans hu'.symm)
    (onlyBlocks_initial nlvl dop) (fun _ _ _ _ _ h hstep => onlyBlocks_step h hstep) hrun

/-- Both blocks are read of a file that has 1024 of them, and both are the file's. -/
theorem bcache_bounds_iff_two : ∃ s : BlockReads,
    Run (readsBlock (mountedFile 1 7) pointerDisk fun _ => 0) ⟨.initial none, []⟩ [0, 1] s ∧
      OnlyBlocks 1 s := by
  have hrun : Run (guarded (InFileOrFails (fun _ => 0) 1)
      (readsBlock (mountedFile 1 7) pointerDisk fun _ => 0)) ⟨.initial none, []⟩ [0] _ :=
    Run.nil.snoc ⟨Or.inl (by norm_num), rfl⟩
  have hrun' := hrun.snoc (l := 1) ⟨Or.inl (by norm_num), rfl⟩
  exact ⟨_, hrun'.of_guarded,
    (bcache_bounds_iff 1 7 pointerDisk _ none hrun'.of_guarded).2 hrun' _ _ List.prefix_rfl
      hrun'.of_guarded⟩

/-- **Block 1 of a file that has block 0 only** is answered with block 0: what is left of
the number at the last level is not looked at. -/
theorem not_bcache_bounds : ¬ ∀ (nlvl fop : ℕ) (disk : ℕ → DiskBlock) (fails : ℕ → Int)
    (dop : Option ℕ) (bs : List ℕ) (s : BlockReads),
      Run (readsBlock (mountedFile nlvl fop) disk fails) ⟨.initial dop, []⟩ bs s →
        OnlyBlocks nlvl s := by
  intro h
  obtain ⟨e, he⟩ := (h 0 7 pointerDisk (fun _ => 0) none [1] _ (Run.nil.snoc rfl)).refused _
    (List.mem_singleton_self _) le_rfl
  exact nomatch he

end Hvf
