/-
# Which segments are loaded exactly

`__copy_segment` of `cp/guest/ipl.c` copies the bytes of a segment that the file has
and stores zeros behind them, in pieces: of the file up to the end of a block, of the
zeros up to 4096 bytes.  `memcpy_to_guest` stores a piece in one page of the guest, so
a piece over a page boundary goes wrong; and `bcache_read` is asked for blocks without
a look at the length of the file.  `copySegment_exact_iff` says that nothing else is
in the way: the lengths need no check, as the pages of the guest do not go on for so
long.

`Pieces` is what both loops do to storage, from one piece to the next
(`Pieces.step`); `pieces_missed` finds the byte that is not stored.
-/

import Hvf.Guest.IplNssClean

namespace Hvf

/-! ### Pieces -/

/-- A piece begins `d` bytes behind the first byte, which has the offset `foff`. -/
def IsPiece (foff d : ℕ) : Prop := d = 0 ∨ (foff + d) % 4096 = 0

/-- The length of this piece, of `n` bytes in all. -/
def pieceLen (foff n d : ℕ) : ℕ := min (4096 - (foff + d) % 4096) (n - d)

/-- Every piece is in one page of the guest. -/
def PiecesInPage (foff n g : ℕ) : Prop :=
  ∀ d < n, IsPiece foff d → (g + d) % 4096 + pieceLen foff n d ≤ 4096

/-- `memcpy_to_guest` of `len` bytes to guest address `v` stores at the host address
`a`. -/
def StoresAt (frames : ℕ → Option ℕ) (v len a : ℕ) : Prop :=
  ∃ h, virt2phyCurrent frames v = some h ∧ h ≤ a ∧ a < h + min (pageRest h) len

/-- **The `n` bytes `src` were stored from guest address `g` on**, piece after piece, and
nothing else. They are where the guest sees them if no piece crosses a guest page. -/
structure Pieces (frames : ℕ → Option ℕ) (src : ℕ → UInt8) (foff n g : ℕ)
    (mem mem' : ℕ → UInt8) : Prop where
  frame : ∀ a, (∀ d < n, IsPiece foff d → ¬ StoresAt frames (g + d) (pieceLen foff n d) a) →
    mem' a = mem a
  bytes : PiecesInPage foff n g → ∀ i < n,
    ∃ a, virt2phyCurrent frames (g + i) = some a ∧ mem' a = src i

/-- The pages of a guest: each has a frame of its own, and they are below 2 GB, which is
all that a segment table covers. -/
structure GuestSpace (frames : ℕ → Option ℕ) : Prop where
  injective : ∀ v v' frame, frames v = some frame → frames v' = some frame → v = v'
  below : ∀ v, 2 ^ 19 ≤ v → frames v = none

section Pieces

variable {frames : ℕ → Option ℕ} {src data mem mem' : ℕ → UInt8} {foff n g h len v u a d : ℕ}

/-- A piece is stored in the page in which it begins, and not before that. -/
theorem StoresAt.page (hstores : StoresAt frames u len a) (hspace : GuestSpace frames)
    (hv : virt2phyCurrent frames v = some a) : v / 4096 = u / 4096 ∧ u ≤ v := by
  obtain ⟨h, hu, hle, hlt⟩ := hstores
  obtain ⟨hframe, hmod⟩ := virt2phyCurrent_eq_some.1 hu
  obtain ⟨hframe', hmod'⟩ := virt2phyCurrent_eq_some.1 hv
  have hrest : a < h + pageRest h := lt_of_lt_of_le hlt (by omega)
  rw [pageRest, pageSize_eq] at hrest
  have hdiv : a / 4096 = h / 4096 := by omega
  rw [hdiv] at hframe'
  have hpage := hspace.injective _ _ _ hframe' hframe
  exact ⟨hpage, by omega⟩

/-- The pieces behind the first one are pieces of the whole. -/
theorem piece_shift (hn : 0 < n) (hlen : len = pieceLen foff n 0) (hd : d < n - len)
    (hpiece : IsPiece (foff + len) d) :
    len + d < n ∧ IsPiece foff (len + d) ∧ pieceLen (foff + len) (n - len) d =
      pieceLen foff n (len + d) := by
  unfold pieceLen IsPiece at *
  omega

/-- Nothing to copy changes nothing. -/
theorem Pieces.none (hn : n = 0) : Pieces frames src foff n g mem mem where
  frame _ _ := rfl
  bytes _ i hi := absurd hi (by omega)

/-- **One piece, and the rest.** -/
theorem Pieces.step (hspace : GuestSpace frames) (hn : 0 < n) (hlen : len = pieceLen foff n 0)
    (hhost : virt2phyCurrent frames g = some h) (hdata : ∀ i < len, data i = src i)
    (hrest : Pieces frames (fun i => src (len + i)) (foff + len) (n - len) (g + len)
      (memcpyTofromGuest frames g len false mem data).mem mem') :
    Pieces frames src foff n g mem mem' := by
  have hstored := copyLoop_stored hhost len 0 mem data
  refine ⟨fun a ha => ?_, fun hpages i hi => ?_⟩
  · have hfirst : (memcpyTofromGuest frames g len false mem data).mem a = mem a := by
      refine hstored.2.1 a ?_
      by_contra hnot
      refine ha 0 hn (Or.inl rfl) ⟨h, hhost, by omega, ?_⟩
      rw [← hlen]
      omega
    rw [← hfirst]
    refine hrest.frame a fun d hd hpiece => ?_
    obtain ⟨hlt, hpiece', hlen'⟩ := piece_shift hn hlen hd hpiece
    rw [hlen', Nat.add_assoc]
    exact ha _ hlt hpiece'
  · rcases Nat.lt_or_ge i len with hilen | hilen
    · -- a byte of the first piece, which no later one is stored over
      have hpage := hpages 0 hn (Or.inl rfl)
      rw [← hlen, Nat.add_zero] at hpage
      obtain ⟨hframe, hmod⟩ := virt2phyCurrent_eq_some.1 hhost
      have hbyte : virt2phyCurrent frames (g + i) = some (h + i) := by
        rw [virt2phyCurrent_eq_some, show (g + i) / 4096 = g / 4096 by omega,
          show (h + i) / 4096 = h / 4096 by omega]
        exact ⟨hframe, by omega⟩
      refine ⟨h + i, hbyte, ?_⟩
      have hkeep := hrest.frame (h + i) fun d _ _ hstores => by
        have hafter := (hstores.page hspace hbyte).2
        omega
      have hthere := hstored.2.2 i (Nat.zero_le i) (by omega) (by
        rw [pageRest, pageSize_eq]
        omega)
      rw [Nat.sub_zero, Nat.mod_eq_of_lt (by rw [pageRest, pageSize_eq]; omega)] at hthere
      exact hkeep.trans (hthere.trans (hdata i hilen))
    · have hpages' : PiecesInPage (foff + len) (n - len) (g + len) := fun d hd hpiece => by
        obtain ⟨hlt, hpiece', hlen'⟩ := piece_shift hn hlen hd hpiece
        rw [hlen', Nat.add_assoc]
        exact hpages _ hlt hpiece'
      obtain ⟨a, ha, hmem⟩ := hrest.bytes hpages' (i - len) (by omega)
      rw [show g + len + (i - len) = g + i by omega] at ha
      rw [show len + (i - len) = i by omega] at hmem
      exact ⟨a, ha, hmem⟩

/-- **The byte behind a page boundary** is stored by no piece that crosses it, and none
begins there. -/
theorem pieces_missed (hspace : GuestSpace frames) (hd : d < n)
    (hcross : 4096 < (g + d) % 4096 + pieceLen foff n d) :
    ∃ i < n, (g + i) % 4096 = 0 ∧ ∀ src mem mem', Pieces frames src foff n g mem mem' →
      ∀ a, virt2phyCurrent frames (g + i) = some a → mem' a = mem a := by
  have hlen : pieceLen foff n d ≤ n - d := Nat.min_le_right _ _
  have hlen' : pieceLen foff n d ≤ 4096 - (foff + d) % 4096 := Nat.min_le_left _ _
  refine ⟨d + (4096 - (g + d) % 4096), by omega, by omega, fun src mem mem' hp a ha => ?_⟩
  refine hp.frame a fun d' hd' hpiece' hstores => ?_
  obtain ⟨hpage, hle⟩ := hstores.page hspace ha
  unfold IsPiece at hpiece'
  omega

end Pieces

/-! ### The bytes of the file -/

/-- The file as `bcache_read` uses it. -/
def nssFile (file : FsFile) : EdfFile := ⟨Fst.nlvl file.fst, Fst.fop file.fst, 4096⟩

/-- Byte `i` of the file. -/
def nssByte (env : NssEnv) (file : FsFile) (i : ℕ) : UInt8 :=
  env.disk ((nssFile file).lba env.disk (Fst.nlvl file.fst) (i / 4096)) (i % 4096)

/-- The bytes of a file with records of 4096 bytes: it has no more records than `AIC`
says and no block without a pointer in its tree. -/
def nssSize (file : FsFile) : ℕ := 4096 * min (Fst.aic file.fst) (1024 ^ Fst.nlvl file.fst)

/-- An image has at most 2³² blocks. -/
theorem nssSize_le (file : FsFile) : nssSize file ≤ 4096 * 2 ^ 32 := by
  have haic := ptrAt_lt file.fst 12
  have hmin := Nat.min_le_left (Fst.aic file.fst) (1024 ^ Fst.nlvl file.fst)
  unfold nssSize
  unfold Fst.aic at hmin ⊢
  omega

/-- What the cache holds is on the disk. -/
def CacheCoherent (file : EdfFile) (disk : ℕ → DiskBlock) (entries : List BcacheEntry) : Prop :=
  ∀ e ∈ entries, EntryOk file disk e

section Cache

variable {file : EdfFile} {disk : ℕ → DiskBlock} {fails : ℕ → Int} {s : Bcache}

/-- A block read from a found cache entry is the block on the disk, and the cache stays
coherent. -/
theorem bcacheFound_coherent (h : CacheCoherent file disk s.entries) {i up blk : ℕ}
    {cur : BcacheEntry} (hcur : s.entries[i]? = some cur)
    (hlba : file.lba disk (file.nlvl - cur.level) cur.blk = file.lba disk up blk) :
    CacheCoherent file disk (bcacheFound disk fails i s).2.entries ∧
      ∀ data, (bcacheFound disk fails i s).1 = .ok data → data = disk (file.lba disk up blk) := by
  have hok := h cur (List.mem_of_getElem? hcur)
  unfold bcacheFound
  rw [hcur]
  dsimp only
  cases hdata : cur.data with
  | some data =>
    refine ⟨h, fun data' heq => ?_⟩
    obtain rfl : data = data' := Except.ok.inj heq
    rw [hok.data _ hdata, hok.lba, hlba]
  | none =>
    dsimp only
    split_ifs
    · exact ⟨h, nofun⟩
    · exact ⟨h, nofun⟩
    · refine ⟨fun e he => ?_, fun data heq => ?_⟩
      · rcases List.mem_or_eq_of_mem_set he with he | rfl
        · exact h e he
        · exact ⟨hok.lba, fun data heq => (Option.some.inj heq).symm⟩
      · rw [← Except.ok.inj heq, hok.lba, hlba]

/-- An entry is added for a block. -/
theorem bcacheAdd_coherent (h : CacheCoherent file disk s.entries) {level blk lba up blk' : ℕ}
    (hlba : lba = file.lba disk (file.nlvl - level) blk)
    (hblk : file.lba disk (file.nlvl - level) blk = file.lba disk up blk') :
    ∀ r : Except Int DiskBlock × Bcache, r = (match bcacheAdd fails level blk lba s with
        | (.error e, s) => (.error e, s)
        | (.ok i, s) => bcacheFound disk fails i s) →
      CacheCoherent file disk r.2.entries ∧
        ∀ data, r.1 = .ok data → data = disk (file.lba disk up blk') := by
  rintro r rfl
  unfold bcacheAdd
  split_ifs with hmalloc
  · exact ⟨h, nofun⟩
  · refine bcacheFound_coherent (s := ⟨s.entries ++ [⟨level, blk, lba, none⟩], s.calls + 1⟩)
      (fun e he => ?_) (List.getElem?_concat_length ..) hblk
    rcases List.mem_append.1 he with he | he
    · exact h e he
    · obtain rfl := List.mem_singleton.1 he
      exact ⟨hlba, nofun⟩

/-- **Any block that is answered is the right one,** as the tree is walked. -/
theorem bcacheReadUp_coherent (fails : ℕ → Int) (h : CacheCoherent file disk s.entries) {up : ℕ}
    (blk : ℕ) (hup : up ≤ file.nlvl) :
    CacheCoherent file disk (bcacheReadUp file disk fails up blk s).2.entries ∧
      ∀ data, (bcacheReadUp file disk fails up blk s).1 = .ok data →
        data = disk (file.lba disk up blk) := by
  induction up generalizing blk with
  | zero =>
    rw [bcacheReadUp]
    cases hfind : bcacheFind file.nlvl blk s with
    | some i =>
      obtain ⟨cur, hcur, hkey⟩ := bcacheFind_some hfind
      obtain ⟨hlevel, -⟩ := Prod.mk.inj hkey
      exact bcacheFound_coherent h hcur (by rw [hlevel, Nat.sub_self]; rfl)
    | none =>
      exact bcacheAdd_coherent h (by rw [Nat.sub_self]; rfl) (by rw [Nat.sub_self]; rfl) _ rfl
  | succ up ih =>
    rw [bcacheReadUp]
    cases hfind : bcacheFind (file.nlvl - (up + 1)) blk s with
    | some i =>
      obtain ⟨cur, hcur, hkey⟩ := bcacheFind_some hfind
      obtain ⟨hlevel, hblk⟩ := Prod.mk.inj hkey
      exact bcacheFound_coherent h hcur (by rw [hlevel, hblk, Nat.sub_sub_self hup])
    | none =>
      obtain ⟨hcache, hparent⟩ := ih (blk / (file.dbsiz / 4)) (by omega)
      dsimp only
      generalize bcacheReadUp file disk fails up (blk / (file.dbsiz / 4)) s = r at hcache hparent
      obtain ⟨res, s'⟩ := r
      cases res with
      | error e => exact ⟨hcache, fun data hdata => by cases hdata⟩
      | ok ptrs =>
        have hlba : ptrAt ptrs (blk % (file.dbsiz / 4)) = file.lba disk (up + 1) blk := by
          rw [hparent ptrs rfl]
          rfl
        dsimp only
        exact bcacheAdd_coherent hcache (by rw [Nat.sub_sub_self hup, hlba])
          (by rw [Nat.sub_sub_self hup]) _ rfl

end Cache

/-! ### The loops -/

section Loops

variable {env : NssEnv} {file : FsFile} {foff fslen gaddr memlen : ℕ} {s t : NssState}

/-- **The zeros** are stored in pieces, by induction on how many are left; all but the last
piece have 4096 bytes. -/
theorem zeroFill_pieces (hspace : GuestSpace s.sys.as.frames)
    (hfoff : memlen = 0 ∨ foff % 4096 = 0) (hg : gaddr + memlen < 2 ^ 64)
    (h : zeroFill gaddr memlen s = .ok (0, t)) :
    Pieces s.sys.as.frames (fun _ => 0) foff memlen gaddr s.sys.mem t.sys.mem := by
  induction memlen using Nat.strong_induction_on generalizing foff gaddr s with
  | _ memlen ih =>
    rw [zeroFill] at h
    by_cases hzero : memlen = 0
    · rw [dif_pos hzero] at h
      obtain ⟨-, rfl⟩ := Prod.mk.inj (Except.ok.inj h)
      exact .none hzero
    rw [dif_neg hzero] at h
    dsimp only at h
    by_cases hframe : s.sys.as.frames (gaddr / 4096) = none
    · have hret := nssToGuest_unmapped (s := s) (fun _ => 0) hframe
        (by omega : min 4096 memlen ≠ 0)
      rw [if_pos hret] at h
      exact absurd (Prod.mk.inj (Except.ok.inj h)).1 hret
    obtain ⟨hret, hlen⟩ := nssToGuest_mapped (s := s) (min 4096 memlen) (fun _ => 0) hframe
    rw [if_neg (not_not.2 hret), if_neg (not_not.2 hlen),
      Nat.mod_eq_of_lt (by omega : gaddr + min 4096 memlen < 2 ^ 64)] at h
    obtain ⟨host, hhost⟩ : ∃ a, virt2phyCurrent s.sys.as.frames gaddr = some a :=
      Option.ne_none_iff_exists'.1 fun hnone => hframe (virt2phyCurrent_eq_none.1 hnone)
    have hpiece : min 4096 memlen = pieceLen foff memlen 0 := by
      unfold pieceLen
      omega
    exact .step hspace (by omega) hpiece hhost (fun _ _ => rfl)
      (ih _ (by omega) (s := (nssToGuest gaddr (min 4096 memlen) (fun _ => 0) s).2.2) hspace
        (by omega) (by omega) h)

/-- **A block of the image read through the cache is the block on the disk**, and the cache
stays coherent. -/
theorem readNss_coherent {blk : ℕ} {r : Except Int DiskBlock}
    (hcache : CacheCoherent (nssFile file) env.disk (s.caches file.id))
    (h : readNss env file blk s = (r, t)) :
    CacheCoherent (nssFile file) env.disk (t.caches file.id) ∧ ∀ buf, r = .ok buf →
      buf = env.disk ((nssFile file).lba env.disk (Fst.nlvl file.fst) blk) := by
  obtain ⟨rfl, rfl⟩ := Prod.mk.inj h
  obtain ⟨hcache', hbuf⟩ := bcacheReadUp_coherent env.fails
    (s := ⟨s.caches file.id, s.fs.bcache.calls⟩) hcache blk (le_refl (Fst.nlvl file.fst))
  refine ⟨?_, hbuf⟩
  show CacheCoherent _ _ (Function.update s.caches file.id _ file.id)
  rw [Function.update_self]
  exact hcache'

/-- **The bytes of the file** are stored in pieces, by induction on how many are left: each
comes from one block, which is the right one. -/
theorem copyFile_pieces {rest : SegmentRest} (hspace : GuestSpace s.sys.as.frames)
    (hcache : CacheCoherent (nssFile file) env.disk (s.caches file.id))
    (hf : 0 < fslen → foff + fslen ≤ 4096 * 2 ^ 32) (hg : gaddr + fslen < 2 ^ 64)
    (h : copyFile env file foff fslen gaddr memlen s = .ok rest) (hret : rest.ret = 0) :
    Pieces s.sys.as.frames (fun i => nssByte env file (foff + i)) foff fslen gaddr s.sys.mem
      rest.state.sys.mem := by
  induction fslen using Nat.strong_induction_on generalizing foff gaddr memlen s with
  | _ fslen ih =>
    rw [copyFile] at h
    by_cases hzero : fslen = 0
    · rw [dif_pos hzero] at h
      cases h
      exact .none hzero
    rw [dif_neg hzero] at h
    dsimp only at h
    cases hres : readNss env file (foff / 4096 % 2 ^ 32) s with
    | mk r u =>
      have hread := readNss_sameHost env file (foff / 4096 % 2 ^ 32) s
      obtain ⟨hcache', hbuf⟩ := readNss_coherent hcache hres
      rw [hres] at h hread
      cases r with
      | error e =>
        cases h
        exact absurd hret (readNss_error_ne hres)
      | ok buf =>
        dsimp only at h
        have hf := hf (by omega)
        generalize hlen : min (4096 - foff % 4096) fslen = len at h
        have hmod := Nat.mod_lt foff (show 0 < 4096 by decide)
        have hmem : u.sys.mem = s.sys.mem := by
          rw [← congrArg (fun r => r.2.sys.mem) hres]
          rfl
        by_cases hframe : u.sys.as.frames (gaddr / 4096) = none
        · have hne := nssToGuest_unmapped (s := u) (fun i => buf (foff % 4096 + i)) hframe
            (by omega : len ≠ 0)
          rw [if_pos hne] at h
          cases h
          exact absurd hret hne
        obtain ⟨hret', hglen⟩ := nssToGuest_mapped (s := u) len
          (fun i => buf (foff % 4096 + i)) hframe
        rw [if_neg (not_not.2 hret'), if_neg (not_not.2 hglen),
          Nat.mod_eq_of_lt (by omega : gaddr + len < 2 ^ 64),
          Nat.mod_eq_of_lt (by omega : foff + len < 2 ^ 64)] at h
        obtain ⟨host, hhost⟩ : ∃ a, virt2phyCurrent u.sys.as.frames gaddr = some a :=
          Option.ne_none_iff_exists'.1 fun hnone => hframe (virt2phyCurrent_eq_none.1 hnone)
        have hpiece : len = pieceLen foff fslen 0 := by
          unfold pieceLen
          omega
        have hdata : ∀ i < len, buf (foff % 4096 + i) = nssByte env file (foff + i) := by
          intro i hi
          rw [hbuf buf rfl, nssByte, show (foff + i) / 4096 = foff / 4096 % 2 ^ 32 by omega,
            show (foff + i) % 4096 = foff % 4096 + i by omega]
        have hrest := ih _ (by omega)
          (s := (nssToGuest gaddr len (fun i => buf (foff % 4096 + i)) u).2.2)
          (by rw [← hread.as] at hspace; exact hspace) hcache' (fun _ => by omega) (by omega) h
        rw [← hmem, ← hread.as]
        refine .step (hread.as ▸ hspace) (by omega) hpiece hhost hdata ?_
        simp only [Nat.add_assoc] at hrest
        exact hrest

/-- **A segment** is stored in the pieces of both loops. -/
theorem copySegment_pieces (hspace : GuestSpace s.sys.as.frames)
    (hcache : CacheCoherent (nssFile file) env.disk (s.caches file.id))
    (hf : 0 < fslen → foff + fslen ≤ 4096 * 2 ^ 32) (hle : fslen ≤ memlen)
    (hm : gaddr + memlen < 2 ^ 64)
    (h : copySegment env file foff fslen gaddr memlen s = .ok (0, t)) :
    ∃ mem, Pieces s.sys.as.frames (fun i => nssByte env file (foff + i)) foff fslen gaddr
        s.sys.mem mem ∧
      Pieces s.sys.as.frames (fun _ => 0) 0 (memlen - fslen) (gaddr + fslen) mem t.sys.mem := by
  obtain ⟨rest, hrest, hsame, -, hdone⟩ := copyFile_spec env file foff s
    (by omega : gaddr < 2 ^ 64) (by omega : memlen < 2 ^ 64) (by omega : fslen < 2 ^ 64)
  rw [copySegment, hrest] at h
  dsimp only at h
  by_cases hret : rest.ret = 0
  · rw [if_neg (not_not.2 hret)] at h
    obtain ⟨hgaddr, hmemlen⟩ := hdone hret
    rw [Nat.mod_eq_of_lt (by omega)] at hgaddr
    rw [show memlen + (2 ^ 64 - fslen) = memlen - fslen + 2 ^ 64 by omega, Nat.add_mod_right,
      Nat.mod_eq_of_lt (by omega)] at hmemlen
    refine ⟨_, copyFile_pieces hspace hcache hf (by omega) hrest hret, ?_⟩
    rw [← hsame.as, ← hgaddr, ← hmemlen]
    exact zeroFill_pieces (hsame.as ▸ hspace) (Or.inr rfl) (by omega) h
  · rw [if_pos hret] at h
    exact absurd (Prod.mk.inj (Except.ok.inj h)).1 hret

end Loops

/-! ### The lengths -/

section Lengths

variable {frames : ℕ → Option ℕ} {foff fslen gaddr memlen n g : ℕ}

/-- Where the pages of the guest end, a piece would begin. -/
theorem FileFits.below (hspace : GuestSpace frames) (hg : g < 2 ^ 64)
    (h : FileFits frames foff n g) : n = 0 ∨ g + n < 2 ^ 31 + 4096 := by
  by_contra hlong
  obtain ⟨hn, hlong⟩ := not_or.1 hlong
  have hfirst := h 0 (by omega) (Or.inl rfl)
  have hbelow : g < 2 ^ 31 := by
    by_contra hnot
    refine hfirst (hspace.below _ ?_)
    rw [Nat.add_zero, Nat.mod_eq_of_lt hg]
    omega
  -- the first piece from the end of the pages on
  obtain ⟨d, hd, hdlt, hmod⟩ : ∃ d, 2 ^ 31 ≤ g + d ∧ g + d < 2 ^ 31 + 4096 ∧
      (foff + d) % 4096 = 0 :=
    ⟨2 ^ 31 - g + (4096 - (foff + (2 ^ 31 - g)) % 4096) % 4096, by omega, by omega, by omega⟩
  refine h d (by omega) (Or.inr hmod) (hspace.below _ ?_)
  rw [Nat.mod_eq_of_lt (by omega)]
  omega

/-- **The lengths need no check:** one of the wrong ones does not fit. -/
theorem segment_small (hspace : GuestSpace frames) (hgaddr : gaddr < 2 ^ 64)
    (hmemlen : memlen < 2 ^ 64) (hfslen : fslen < 2 ^ 64) (hfile : FileFits frames foff fslen gaddr)
    (hzero : ZeroFits frames ((gaddr + fslen) % 2 ^ 64)
      ((memlen + (2 ^ 64 - fslen)) % 2 ^ 64)) :
    fslen ≤ memlen ∧ gaddr + memlen < 2 ^ 64 := by
  have hfile := hfile.below hspace hgaddr
  have hzero' : FileFits frames 0 ((memlen + (2 ^ 64 - fslen)) % 2 ^ 64)
      ((gaddr + fslen) % 2 ^ 64) := fun d hd hpiece => hzero d hd (by omega)
  have hzero' := hzero'.below hspace (Nat.mod_lt _ (by decide))
  omega

end Lengths

/-! ### Exactness -/

/-- The guest's storage from `gaddr` on has the bytes of the file and zeros behind them, and
no other byte has changed. -/
structure SegmentLoaded (env : NssEnv) (file : FsFile) (foff fslen gaddr memlen : ℕ)
    (s t : NssState) : Prop where
  bytes : ∀ i < memlen, ∃ a, virt2phyCurrent s.sys.as.frames (gaddr + i) = some a ∧
    t.sys.mem a = if i < fslen then nssByte env file (foff + i) else 0
  frame : ∀ a, (∀ i < memlen, virt2phyCurrent s.sys.as.frames (gaddr + i) ≠ some a) →
    t.sys.mem a = s.sys.mem a

/-- The header has more bytes of the file than of storage, or the file does not have them, or
the addresses wrap. -/
def SegmentBad (file : FsFile) (foff fslen gaddr memlen : ℕ) : Prop :=
  memlen < fslen ∨ (0 < fslen ∧ nssSize file < foff + fslen) ∨ 2 ^ 64 < gaddr + memlen

/-- `__copy_segment` returns: with 0 only if the segment is loaded, and with an error if the
header is bad. -/
def SegmentExact (env : NssEnv) (file : FsFile) (foff fslen gaddr memlen : ℕ) (s : NssState) :
    Prop :=
  ∃ ret t, copySegment env file foff fslen gaddr memlen s = .ok (ret, t) ∧
    (ret = 0 → SegmentLoaded env file foff fslen gaddr memlen s t) ∧
    (SegmentBad file foff fslen gaddr memlen → ret ≠ 0)

/-- The blocks can be read, and the guest has the pages. -/
def SegmentGoes (env : NssEnv) (file : FsFile) (foff fslen gaddr memlen : ℕ) (s : NssState) :
    Prop :=
  FileReads env file foff fslen s ∧ FileFits s.sys.as.frames foff fslen gaddr ∧
    ZeroFits s.sys.as.frames ((gaddr + fslen) % 2 ^ 64) ((memlen + (2 ^ 64 - fslen)) % 2 ^ 64)

section Exact

variable {env : NssEnv} {file : FsFile} {foff fslen gaddr memlen d : ℕ} {s t : NssState}
  {frames : ℕ → Option ℕ}

/-- What is stored is in the range. -/
theorem StoresAt.inside {v len n g a : ℕ} (h : StoresAt frames (g + v) len a) (hv : v + len ≤ n) :
    ∃ i < n, v ≤ i ∧ virt2phyCurrent frames (g + i) = some a := by
  obtain ⟨host, hhost, hle, hlt⟩ := h
  obtain ⟨hframe, hmod⟩ := virt2phyCurrent_eq_some.1 hhost
  rw [pageRest, pageSize_eq] at hlt
  refine ⟨v + (a - host), by omega, by omega, ?_⟩
  rw [virt2phyCurrent_eq_some, show (g + (v + (a - host))) / 4096 = (g + v) / 4096 by omega,
    show a / 4096 = host / 4096 by omega]
  exact ⟨hframe, by omega⟩

/-- A piece ends within the copy. -/
theorem pieceLen_le {n : ℕ} (foff : ℕ) (hd : d < n) : d + pieceLen foff n d ≤ n := by
  have hle := Nat.min_le_right (4096 - (foff + d) % 4096) (n - d)
  unfold pieceLen
  omega

/-- **A copy that returns 0 has loaded the segment**: its bytes from the file, then zeros up to
its length. -/
theorem copySegment_loaded (hspace : GuestSpace s.sys.as.frames)
    (hcache : CacheCoherent (nssFile file) env.disk (s.caches file.id))
    (hf : 0 < fslen → foff + fslen ≤ 4096 * 2 ^ 32) (hle : fslen ≤ memlen)
    (hm : gaddr + memlen < 2 ^ 64)
    (hpages : PiecesInPage foff fslen gaddr)
    (hzeros : PiecesInPage 0 (memlen - fslen) (gaddr + fslen))
    (h : copySegment env file foff fslen gaddr memlen s = .ok (0, t)) :
    SegmentLoaded env file foff fslen gaddr memlen s t := by
  obtain ⟨mem, hfile, hzero⟩ := copySegment_pieces hspace hcache hf hle hm h
  refine ⟨fun i hi => ?_, fun a ha => ?_⟩
  · rcases Nat.lt_or_ge i fslen with hlt | hge
    · -- no zero is stored below the first one
      obtain ⟨a, ha, hbyte⟩ := hfile.bytes hpages i hlt
      refine ⟨a, ha, ?_⟩
      rw [if_pos hlt, ← hbyte]
      refine hzero.frame a fun d _ _ hstores => ?_
      have hafter := (hstores.page hspace ha).2
      omega
    · obtain ⟨a, ha, hbyte⟩ := hzero.bytes hzeros (i - fslen) (by omega)
      rw [show gaddr + fslen + (i - fslen) = gaddr + i by omega] at ha
      exact ⟨a, ha, by rw [if_neg (by omega), hbyte]⟩
  · rw [hzero.frame a, hfile.frame a]
    · intro d hd _ hstores
      obtain ⟨i, hi, -, hat⟩ := hstores.inside (pieceLen_le foff hd)
      exact ha i (by omega) hat
    · intro d hd _ hstores
      rw [Nat.add_assoc] at hstores
      have hlen := pieceLen_le 0 hd
      obtain ⟨i, hi, -, hat⟩ := hstores.inside (n := memlen) (by omega)
      exact ha i hi hat

/-- **A piece over a page boundary** leaves a byte as it was, whatever the byte is. -/
theorem copySegment_missed (hspace : GuestSpace s.sys.as.frames)
    (hcache : CacheCoherent (nssFile file) env.disk (s.caches file.id))
    (hf : 0 < fslen → foff + fslen ≤ 4096 * 2 ^ 32) (hle : fslen ≤ memlen)
    (hm : gaddr + memlen < 2 ^ 64)
    (hcross : ¬ (PiecesInPage foff fslen gaddr ∧
      PiecesInPage 0 (memlen - fslen) (gaddr + fslen))) :
    ∃ i < memlen, ∀ mem t, copySegment env file foff fslen gaddr memlen
        { s with sys := { s.sys with mem } } = .ok (0, t) →
      ∀ a, virt2phyCurrent s.sys.as.frames (gaddr + i) = some a → t.sys.mem a = mem a := by
  rw [Classical.not_and_iff_not_or_not] at hcross
  rcases hcross with hcross | hcross
  · simp only [PiecesInPage, not_forall, not_le] at hcross
    obtain ⟨d, hd, -, hcross⟩ := hcross
    obtain ⟨i, hi, -, hmissed⟩ := pieces_missed hspace hd hcross
    refine ⟨i, by omega, fun mem t h a ha => ?_⟩
    obtain ⟨mem', hfile, hzero⟩ := copySegment_pieces (s := { s with sys := { s.sys with mem } })
      hspace hcache hf hle hm h
    rw [hzero.frame a, hmissed _ _ _ hfile a ha]
    intro d _ _ hstores
    have hafter := (hstores.page hspace ha).2
    omega
  · simp only [PiecesInPage, not_forall, not_le] at hcross
    obtain ⟨d, hd, -, hcross⟩ := hcross
    obtain ⟨i, hi, hmod, hmissed⟩ := pieces_missed hspace hd hcross
    refine ⟨fslen + i, by omega, fun mem t h a ha => ?_⟩
    obtain ⟨mem', hfile, hzero⟩ := copySegment_pieces (s := { s with sys := { s.sys with mem } })
      hspace hcache hf hle hm h
    rw [← Nat.add_assoc] at ha
    rw [hmissed _ _ _ hzero a ha, hfile.frame a]
    -- the bytes of the file are in pages before this one
    intro d hd _ hstores
    have hpage := (hstores.page hspace ha).1
    omega

/-- The copy ends, with a return code, for all 64-bit lengths and addresses. -/
theorem copySegment_goes (env : NssEnv) (file : FsFile) (s : NssState) (hfslen : fslen < 2 ^ 64)
    (hgaddr : gaddr < 2 ^ 64) (hmemlen : memlen < 2 ^ 64) (mem : ℕ → UInt8) :
    ∃ ret t, copySegment env file foff fslen gaddr memlen
        { s with sys := { s.sys with mem } } = .ok (ret, t) ∧
      (ret = 0 ↔ SegmentGoes env file foff fslen gaddr memlen s) := by
  obtain ⟨ret, t, h, -, hiff⟩ := copySegment_spec env file foff
    { s with sys := { s.sys with mem } } hgaddr hmemlen hfslen
  exact ⟨ret, t, h, hiff.trans (and_congr_left' (fileReads_sys _))⟩

/-- What an exact load that goes through needs. -/
theorem SegmentGoes.inPages (hgoes : SegmentGoes env file foff fslen gaddr memlen s)
    (hspace : GuestSpace s.sys.as.frames)
    (hcache : CacheCoherent (nssFile file) env.disk (s.caches file.id))
    (hfslen : fslen < 2 ^ 64) (hgaddr : gaddr < 2 ^ 64) (hmemlen : memlen < 2 ^ 64)
    (hall : ∀ mem, SegmentExact env file foff fslen gaddr memlen
      { s with sys := { s.sys with mem } }) :
    (0 < fslen → foff + fslen ≤ nssSize file) ∧ PiecesInPage foff fslen gaddr ∧
      PiecesInPage 0 (memlen - fslen) (gaddr + fslen) := by
  obtain ⟨hle, hm⟩ := segment_small hspace hgaddr hmemlen hfslen hgoes.2.1 hgoes.2.2
  have hdone : ∀ mem, ∃ t, copySegment env file foff fslen gaddr memlen
      { s with sys := { s.sys with mem } } = .ok (0, t) ∧
      SegmentLoaded env file foff fslen gaddr memlen { s with sys := { s.sys with mem } } t ∧
      ¬ SegmentBad file foff fslen gaddr memlen := fun mem => by
    obtain ⟨ret, t, h, hloaded, hbad⟩ := hall mem
    obtain ⟨_, _, h', hiff⟩ := copySegment_goes env file s hfslen hgaddr hmemlen mem
    obtain ⟨rfl, rfl⟩ := Prod.mk.inj (Except.ok.inj (h.symm.trans h'))
    obtain rfl := hiff.2 hgoes
    exact ⟨t, h, hloaded rfl, fun h => hbad h rfl⟩
  have hwithin : 0 < fslen → foff + fslen ≤ nssSize file := fun hpos => by
    obtain ⟨-, -, -, hbad⟩ := hdone s.sys.mem
    exact not_lt.1 fun hlt => hbad (Or.inr (Or.inl ⟨hpos, hlt⟩))
  refine ⟨hwithin, ?_⟩
  by_contra hcross
  obtain ⟨i, hi, hmissed⟩ := copySegment_missed hspace hcache
    (fun hpos => (hwithin hpos).trans (nssSize_le file)) hle hm hcross
  -- storage in which the byte is wrong, wherever it is
  obtain ⟨t, h, hloaded, -⟩ :=
    hdone fun _ => (if i < fslen then nssByte env file (foff + i) else 0) + 1
  obtain ⟨a, ha, hbyte⟩ := hloaded.bytes i hi
  rw [hmissed _ t h a ha] at hbyte
  exact absurd hbyte (by simp)

/-- **Which segments are loaded exactly,** whatever is in storage: those of which every block
can be read and every page is there have their bytes in the file, and each piece in one page
of the guest.  The zeros behind the file are in pages of their own, or all in one page. -/
theorem copySegment_exact_iff (env : NssEnv) (file : FsFile) (s : NssState)
    (hspace : GuestSpace s.sys.as.frames)
    (hcache : CacheCoherent (nssFile file) env.disk (s.caches file.id))
    (hfslen : fslen < 2 ^ 64) (hgaddr : gaddr < 2 ^ 64) (hmemlen : memlen < 2 ^ 64) :
    (∀ mem, SegmentExact env file foff fslen gaddr memlen
      { s with sys := { s.sys with mem } }) ↔
    (SegmentGoes env file foff fslen gaddr memlen s →
      (0 < fslen → foff + fslen ≤ nssSize file) ∧ PiecesInPage foff fslen gaddr ∧
      PiecesInPage 0 (memlen - fslen) (gaddr + fslen)) := by
  constructor
  · exact fun hall hgoes => hgoes.inPages hspace hcache hfslen hgaddr hmemlen hall
  · intro hcond mem
    obtain ⟨ret, t, h, hiff⟩ := copySegment_goes env file s hfslen hgaddr hmemlen mem
    refine ⟨ret, t, h, fun hret => ?_, fun hbad hret => ?_⟩
    · subst hret
      have hgoes := hiff.1 rfl
      obtain ⟨hle, hm⟩ := segment_small hspace hgaddr hmemlen hfslen hgoes.2.1 hgoes.2.2
      obtain ⟨hwithin, hpages, hzeros⟩ := hcond hgoes
      exact copySegment_loaded (s := { s with sys := { s.sys with mem } }) hspace hcache
        (fun hpos => (hwithin hpos).trans (nssSize_le file)) hle hm hpages hzeros h
    · have hgoes := hiff.1 hret
      obtain ⟨hle, hm⟩ := segment_small hspace hgaddr hmemlen hfslen hgoes.2.1 hgoes.2.2
      obtain ⟨hwithin, -⟩ := hcond hgoes
      rcases hbad with hbad | ⟨hpos, hbad⟩ | hbad
      · omega
      · exact absurd (hwithin hpos) (by omega)
      · omega

end Exact

/-- Two pages. -/
def twoPages : GuestMem where
  frames v := if v < 2 then some (5 + v) else none
  guestPages := [5, 6]
  owned v frame h := by
    split_ifs at h with hv
    rw [← Option.some.inj h, List.mem_cons, List.mem_singleton]
    omega

/-- The guest is loaded, in two pages. -/
def segmentStart : NssState := { nssStart with sys := { newGuest with as := twoPages } }

/-- `LOGIN NSS`. -/
def loginNss : FsFile := ⟨1, fstAt (nssDisk 5) 2⟩

/-- The two pages of the example are a guest's space. -/
theorem twoPages_guestSpace : GuestSpace twoPages.frames where
  injective v v' frame h h' := by
    simp only [twoPages] at h h'
    split_ifs at h h'
    have heq := Option.some.inj (h.trans h'.symm)
    omega
  below v hv := if_neg (by omega)

/-- The segment of the example can be read and its pages are there, for any length up to 8192.
-/
theorem loginNss_goes {memlen : ℕ} (hlo : 100 ≤ memlen) (hhi : memlen ≤ 8192) :
    SegmentGoes nssEnv loginNss 0 100 0 memlen segmentStart := by
  have hpage : ∀ v, v < 8192 → twoPages.frames (v % 2 ^ 64 / 4096) ≠ none := fun v hv => by
    simp only [twoPages]
    rw [if_pos (by omega)]
    exact nofun
  refine ⟨?_, fun d hd _ => hpage _ (by omega), fun d hd _ => ?_⟩
  · obtain ⟨buf, t, hread⟩ :
        ∃ buf t, readNss nssEnv loginNss (0 / 4096 % 2 ^ 32) segmentStart = (.ok buf, t) :=
      ⟨_, _, rfl⟩
    rw [FileReads, dif_neg (by decide), hread]
    dsimp only
    rw [FileReads, dif_pos (by decide)]
    trivial
  · refine hpage _ ?_
    omega

/-- A segment of one page is loaded: its bytes from the file, and zeros behind them. -/
theorem copySegment_exact_login : SegmentExact nssEnv loginNss 0 100 0 4096 segmentStart := by
  refine (copySegment_exact_iff nssEnv loginNss segmentStart twoPages_guestSpace nofun
    (by decide) (by decide) (by decide)).2 (fun _ => ⟨fun _ => by decide, ?_, ?_⟩)
    segmentStart.sys.mem
  · intro d hd _
    unfold pieceLen
    omega
  · intro d hd hpiece
    unfold pieceLen IsPiece at *
    omega

/-- The zeros of a segment of two pages are not: a piece of 4096 zeros that begins inside a
page goes on in the next frame of the host. -/
theorem not_copySegment_exact : GuestSpace segmentStart.sys.as.frames ∧
    CacheCoherent (nssFile loginNss) nssEnv.disk (segmentStart.caches loginNss.id) ∧
    ¬ ∀ mem, SegmentExact nssEnv loginNss 0 100 0 8192
      { segmentStart with sys := { segmentStart.sys with mem } } := by
  refine ⟨twoPages_guestSpace, nofun, fun hall => ?_⟩
  obtain ⟨-, -, hzeros⟩ := (loginNss_goes (by decide) le_rfl).inPages twoPages_guestSpace nofun
    (by decide) (by decide) (by decide) hall
  have hfirst := hzeros 0 (by decide) (Or.inl rfl)
  exact absurd hfirst (by decide)

end Hvf
