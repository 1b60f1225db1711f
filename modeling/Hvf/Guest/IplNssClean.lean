/-
# A load that fails cleanly

`guest_ipl_nss` should return in all cases, with the guest stopped or in the check-stop
state, and with the designation loaded that was loaded before (`IplClean`).  Up to the
switch of the address space only the assertion about the file is in the way.  Behind it
`goto corrupt` leaves the guest's address space loaded, and so does `load_pasce` of a
designation that is 0; and the loop takes it that each program header lies in one
block, which can be read.

What the loop does to the state that matters is `SameHost`: the designation, the
guest's pages and the state of its CPU stay.  `BUG_ON(glen != len)` is never hit, as a
copy to a page that is mapped is complete.
-/

import Hvf.Guest.IplNss
import Hvf.Mm.GuestCopyExact

namespace Hvf

open Bytes

/-! ### Errors of the cache -/

section Errors

variable {file : EdfFile} {disk : ℕ → DiskBlock} {fails : ℕ → Int} {s s' : Bcache} {e : Int}

/-- A read that fails gives no zero return code. -/
theorem bcacheFound_error_ne {i : ℕ} (h : bcacheFound disk fails i s = (.error e, s')) :
    e ≠ 0 := by
  unfold bcacheFound at h
  split at h
  · cases h
    decide
  · split at h
    · cases h
    · split_ifs at h with hmalloc hread
      · cases h
        decide
      · cases h
        exact hread
      · cases h

/-- A cache entry that cannot be made gives no zero return code. -/
theorem bcacheAdd_error_ne {level blk lba : ℕ}
    (h : bcacheAdd fails level blk lba s = (.error e, s')) : e ≠ 0 := by
  unfold bcacheAdd at h
  split_ifs at h
  · cases h
    decide
  · cases h

/-- An error of `bcache_read` is not 0. -/
theorem bcacheReadUp_error_ne {up blk : ℕ}
    (h : bcacheReadUp file disk fails up blk s = (.error e, s')) : e ≠ 0 := by
  induction up generalizing blk e s' with
  | zero =>
    rw [bcacheReadUp] at h
    split at h
    case h_1 => exact bcacheFound_error_ne h
    case h_2 =>
      split at h
      case h_1 hadd =>
        cases h
        exact bcacheAdd_error_ne hadd
      case h_2 => exact bcacheFound_error_ne h
  | succ up ih =>
    rw [bcacheReadUp] at h
    split at h
    case h_1 => exact bcacheFound_error_ne h
    case h_2 =>
      split at h
      case h_1 hparent =>
        cases h
        exact ih hparent
      case h_2 =>
        dsimp only at h
        split at h
        case h_1 hadd =>
          cases h
          exact bcacheAdd_error_ne hadd
        case h_2 => exact bcacheFound_error_ne h

end Errors

/-! ### Segments -/

/-- **The two agree in what the loops leave**: the address space that is loaded, the guest's
tables, and its state. -/
structure SameHost (s t : NssState) : Prop where
  pasce : t.pasce = s.pasce
  as : t.sys.as = s.sys.as
  state : t.sys.state = s.sys.state

/-- A state has its own designation, address space and CPU state. -/
theorem SameHost.refl (s : NssState) : SameHost s s := ⟨rfl, rfl, rfl⟩

/-- What leaves these three alone, one step after the other, leaves them alone. -/
theorem SameHost.trans {s t u : NssState} (h : SameHost s t) (h' : SameHost t u) : SameHost s u :=
  ⟨h'.pasce.trans h.pasce, h'.as.trans h.as, h'.state.trans h.state⟩

/-- The blocks of the file's range can be read, one after the other. -/
def FileReads (env : NssEnv) (file : FsFile) (foff fslen : ℕ) (s : NssState) : Prop :=
  if h : fslen = 0 then True
  else
    let len := min (4096 - foff % 4096) fslen
    have : 0 < len := by
      have := Nat.mod_lt foff (show 0 < 4096 by decide)
      omega
    match readNss env file (foff / 4096 % 2 ^ 32) s with
    | (.error _, _) => False
    | (.ok _, t) => FileReads env file ((foff + len) % 2 ^ 64) (fslen - len) t
termination_by fslen

/-- The guest has the pages on which pieces of the file begin. -/
def FileFits (frames : ℕ → Option ℕ) (foff fslen gaddr : ℕ) : Prop :=
  ∀ d < fslen, d = 0 ∨ (foff + d) % 4096 = 0 → frames ((gaddr + d) % 2 ^ 64 / 4096) ≠ none

/-- The guest has the pages that begin with pieces of zeroes. -/
def ZeroFits (frames : ℕ → Option ℕ) (gaddr memlen : ℕ) : Prop :=
  ∀ d < memlen, d % 4096 = 0 → frames ((gaddr + d) % 2 ^ 64 / 4096) ≠ none

section Segments

variable {env : NssEnv} {file : FsFile} {foff fslen gaddr memlen len : ℕ} {data : ℕ → UInt8}
  {s t : NssState}

/-- Reading a block of the image changes neither designation, address space nor CPU state. -/
theorem readNss_sameHost (env : NssEnv) (file : FsFile) (blk : ℕ) (s : NssState) :
    SameHost s (readNss env file blk s).2 := ⟨rfl, rfl, rfl⟩

/-- Copying into the guest changes none of the three either. -/
theorem nssToGuest_sameHost (gaddr len : ℕ) (data : ℕ → UInt8) (s : NssState) :
    SameHost s (nssToGuest gaddr len data s).2.2 := ⟨rfl, rfl, rfl⟩

/-- The guest has no part in what can be read. -/
theorem fileReads_sys (sys : VirtSys) :
    FileReads env file foff fslen { s with sys } ↔ FileReads env file foff fslen s := by
  induction fslen using Nat.strong_induction_on generalizing foff s with
  | _ fslen ih =>
    rw [FileReads, FileReads]
    by_cases hzero : fslen = 0
    · rw [dif_pos hzero, dif_pos hzero]
    · rw [dif_neg hzero, dif_neg hzero]
      have hread : readNss env file (foff / 4096 % 2 ^ 32) { s with sys } =
          ((readNss env file (foff / 4096 % 2 ^ 32) s).1,
            { (readNss env file (foff / 4096 % 2 ^ 32) s).2 with sys }) := rfl
      rw [hread]
      cases readNss env file (foff / 4096 % 2 ^ 32) s with
      | mk r t =>
        cases r with
        | error e => rfl
        | ok buf =>
          have hmod := Nat.mod_lt foff (show 0 < 4096 by decide)
          exact ih _ (by omega)

/-- A failed read gives no zero return code. -/
theorem readNss_error_ne {blk : ℕ} {e : Int} (h : readNss env file blk s = (.error e, t)) :
    e ≠ 0 := by
  obtain ⟨herror, -⟩ := Prod.mk.inj h
  exact bcacheReadUp_error_ne (Prod.ext herror rfl)

/-- A copy to a page that is mapped is complete. -/
theorem nssToGuest_mapped (len : ℕ) (data : ℕ → UInt8) (h : s.sys.as.frames (gaddr / 4096) ≠ none) :
    (nssToGuest gaddr len data s).1 = 0 ∧ (nssToGuest gaddr len data s).2.1 = len := by
  obtain ⟨hostAddr, hhost⟩ : ∃ a, virt2phyCurrent s.sys.as.frames gaddr = some a :=
    Option.ne_none_iff_exists'.1 fun hnone => h (virt2phyCurrent_eq_none.1 hnone)
  obtain ⟨hret, hlen⟩ := copyLoop_ret hhost false len 0 s.sys.mem data
  exact ⟨hret, hlen.trans (Nat.zero_add len)⟩

/-- A copy into a page that is not mapped fails, unless it is of no byte. -/
theorem nssToGuest_unmapped (data : ℕ → UInt8) (h : s.sys.as.frames (gaddr / 4096) = none)
    (hlen : len ≠ 0) :
    (nssToGuest gaddr len data s).1 ≠ 0 := by
  have hnone : virt2phyCurrent s.sys.as.frames gaddr = none := virt2phyCurrent_eq_none.2 h
  have hret : (nssToGuest gaddr len data s).1 = -efault := by
    show (memcpyTofromGuest s.sys.as.frames gaddr len false s.sys.mem data).ret = -efault
    rw [memcpyTofromGuest, copyLoop, dif_neg hlen, hnone]
  rw [hret]
  decide

/-- Addresses that wrap at 2⁶⁴ add up all the same. -/
theorem wrap_add (g m d : ℕ) : ((g + m) % 2 ^ 64 + d) % 2 ^ 64 = (g + (m + d)) % 2 ^ 64 := by
  rw [Nat.mod_add_mod, Nat.add_assoc]

/-- **What `zeroFill` does.** -/
theorem zeroFill_spec (memlen : ℕ) (s : NssState) (hgaddr : gaddr < 2 ^ 64) :
    ∃ ret t, zeroFill gaddr memlen s = .ok (ret, t) ∧ SameHost s t ∧
      (ret = 0 ↔ ZeroFits s.sys.as.frames gaddr memlen) := by
  induction memlen using Nat.strong_induction_on generalizing gaddr s with
  | _ memlen ih =>
    rw [zeroFill]
    by_cases hzero : memlen = 0
    · rw [dif_pos hzero]
      exact ⟨0, s, rfl, .refl s, iff_of_true rfl fun d hd => absurd hd (by omega)⟩
    · rw [dif_neg hzero]
      dsimp only
      have hhost := nssToGuest_sameHost gaddr (min 4096 memlen) (fun _ => 0) s
      have hfirst : (gaddr + 0) % 2 ^ 64 / 4096 = gaddr / 4096 := by
        rw [Nat.add_zero, Nat.mod_eq_of_lt hgaddr]
      by_cases hframe : s.sys.as.frames (gaddr / 4096) = none
      · have hret := nssToGuest_unmapped (fun _ => 0) hframe
          (by omega : min 4096 memlen ≠ 0)
        rw [if_pos hret]
        refine ⟨_, _, rfl, hhost, iff_of_false hret fun hfits => ?_⟩
        exact hfits 0 (by omega) rfl (by rw [hfirst, hframe])
      · obtain ⟨hret, hlen⟩ := nssToGuest_mapped (min 4096 memlen) (fun _ => 0) hframe
        rw [if_neg (not_not.2 hret), if_neg (not_not.2 hlen)]
        have hwrap : (gaddr + min 4096 memlen) % 2 ^ 64 < 2 ^ 64 := Nat.mod_lt _ (by decide)
        obtain ⟨ret, t, hrest, hsame, hiff⟩ := ih (memlen - min 4096 memlen) (by omega)
          (nssToGuest gaddr (min 4096 memlen) (fun _ => 0) s).2.2 hwrap
        refine ⟨ret, t, hrest, hhost.trans hsame, hiff.trans ?_⟩
        rw [hhost.as]
        constructor
        · intro hfits d hd hmod
          by_cases hd0 : d = 0
          · rw [hd0, hfirst]
            exact hframe
          · have hnext := hfits (d - min 4096 memlen) (by omega) (by omega)
            rw [wrap_add, show min 4096 memlen + (d - min 4096 memlen) = d by omega] at hnext
            exact hnext
        · intro hfits d hd hmod
          rw [wrap_add]
          exact hfits _ (by omega) (by omega)

/-- **What `copyFile` does.** -/
theorem copyFile_spec (env : NssEnv) (file : FsFile) (foff : ℕ) (s : NssState)
    (hgaddr : gaddr < 2 ^ 64) (hmemlen : memlen < 2 ^ 64) (hfslen : fslen < 2 ^ 64) :
    ∃ rest, copyFile env file foff fslen gaddr memlen s = .ok rest ∧ SameHost s rest.state ∧
      (rest.ret = 0 ↔ FileReads env file foff fslen s ∧
        FileFits s.sys.as.frames foff fslen gaddr) ∧
      (rest.ret = 0 → rest.gaddr = (gaddr + fslen) % 2 ^ 64 ∧
        rest.memlen = (memlen + (2 ^ 64 - fslen)) % 2 ^ 64) := by
  induction fslen using Nat.strong_induction_on generalizing foff gaddr memlen s with
  | _ fslen ih =>
    rw [copyFile, FileReads]
    by_cases hzero : fslen = 0
    · subst hzero
      rw [dif_pos rfl, dif_pos rfl]
      refine ⟨_, rfl, .refl s, iff_of_true rfl ⟨trivial, fun d hd => absurd hd (by omega)⟩,
        fun _ => ⟨(Nat.mod_eq_of_lt hgaddr).symm, ?_⟩⟩
      rw [Nat.sub_zero, Nat.add_mod_right, Nat.mod_eq_of_lt hmemlen]
    · rw [dif_neg hzero, dif_neg hzero]
      dsimp only
      have hread := readNss_sameHost env file (foff / 4096 % 2 ^ 32) s
      cases hres : readNss env file (foff / 4096 % 2 ^ 32) s with
      | mk r t =>
        rw [hres] at hread
        cases r with
        | error e =>
          have hne := readNss_error_ne hres
          exact ⟨_, rfl, hread, iff_of_false hne fun h => h.1, fun h => absurd h hne⟩
        | ok buf =>
          dsimp only
          generalize hlen : min (4096 - foff % 4096) fslen = len
          have hmod := Nat.mod_lt foff (show 0 < 4096 by decide)
          generalize hdata : (fun i => buf (foff % 4096 + i)) = data
          have hhost := hread.trans (nssToGuest_sameHost gaddr len data t)
          have hfirst : (gaddr + 0) % 2 ^ 64 / 4096 = gaddr / 4096 := by
            rw [Nat.add_zero, Nat.mod_eq_of_lt hgaddr]
          have has : t.sys.as = s.sys.as := hread.as
          by_cases hframe : s.sys.as.frames (gaddr / 4096) = none
          · have hret := nssToGuest_unmapped (s := t) data (by rw [has]; exact hframe)
              (by omega : len ≠ 0)
            rw [if_pos hret]
            refine ⟨_, rfl, hhost, iff_of_false hret fun h => ?_, fun h => absurd h hret⟩
            exact h.2 0 (by omega) (Or.inl rfl) (by rw [hfirst, hframe])
          · obtain ⟨hret, hglen⟩ := nssToGuest_mapped (s := t) len data
              (by rw [has]; exact hframe)
            rw [if_neg (not_not.2 hret), if_neg (not_not.2 hglen)]
            have hg : (gaddr + len) % 2 ^ 64 < 2 ^ 64 := Nat.mod_lt _ (by decide)
            have hm : (memlen + (2 ^ 64 - len)) % 2 ^ 64 < 2 ^ 64 := Nat.mod_lt _ (by decide)
            obtain ⟨rest, hrest, hsame, hiff, hdone⟩ := ih (fslen - len) (by omega)
              ((foff + len) % 2 ^ 64) (nssToGuest gaddr len data t).2.2 hg hm (by omega)
            refine ⟨rest, hrest, hhost.trans hsame, hiff.trans ?_, fun hret => ?_⟩
            · rw [hhost.as]
              refine and_congr (fileReads_sys _)
                ⟨fun hfits d hd hor => ?_, fun hfits d hd hor => ?_⟩
              · by_cases hd0 : d = 0
                · rw [hd0, hfirst]
                  exact hframe
                · have hnext := hfits (d - len) (by omega) (by omega)
                  rw [wrap_add, show len + (d - len) = d by omega] at hnext
                  exact hnext
              · rw [wrap_add]
                exact hfits _ (by omega) (by omega)
            · obtain ⟨hg, hm⟩ := hdone hret
              refine ⟨by rw [hg, wrap_add, show len + (fslen - len) = fslen by omega], ?_⟩
              rw [hm, wrap_add,
                show 2 ^ 64 - len + (2 ^ 64 - (fslen - len)) = 2 ^ 64 - fslen + 2 ^ 64 by omega,
                ← Nat.add_assoc, Nat.add_mod_right]

/-- **What `__copy_segment` does.**  It returns 0 where the file's range can be read and
the guest has the pages; the length of the zeroes is modulo 2^64. -/
theorem copySegment_spec (env : NssEnv) (file : FsFile) (foff : ℕ) (s : NssState)
    (hgaddr : gaddr < 2 ^ 64) (hmemlen : memlen < 2 ^ 64)
    (hfslen : fslen < 2 ^ 64) :
    ∃ ret t, copySegment env file foff fslen gaddr memlen s = .ok (ret, t) ∧ SameHost s t ∧
      (ret = 0 ↔ FileReads env file foff fslen s ∧ FileFits s.sys.as.frames foff fslen gaddr ∧
        ZeroFits s.sys.as.frames ((gaddr + fslen) % 2 ^ 64)
          ((memlen + (2 ^ 64 - fslen)) % 2 ^ 64)) := by
  obtain ⟨rest, hrest, hsame, hiff, hdone⟩ :=
    copyFile_spec env file foff s hgaddr hmemlen hfslen
  rw [copySegment, hrest]
  dsimp only
  by_cases hret : rest.ret = 0
  · obtain ⟨hg, hm⟩ := hdone hret
    obtain ⟨ret, t, hzero, hsame', hfits⟩ := zeroFill_spec rest.memlen rest.state
      (by rw [hg]; exact Nat.mod_lt _ (by decide) : rest.gaddr < 2 ^ 64)
    rw [if_neg (not_not.2 hret)]
    refine ⟨ret, t, hzero, hsame.trans hsame', hfits.trans ?_⟩
    rw [hsame.as, hg, hm, ← and_assoc, ← hiff]
    exact ⟨fun hfits => ⟨hret, hfits⟩, fun h => h.2⟩
  · rw [if_pos hret]
    exact ⟨_, _, rfl, hsame, iff_of_false hret fun h => hret (hiff.2 ⟨h.1, h.2.1⟩)⟩

end Segments

/-! ### Program headers -/

/-- The segment of the program header at `off` of the block is aligned, can be read, and
is where the guest has storage. -/
def SegmentLoads (env : NssEnv) (arch : ElfArch) (file : FsFile) (buf : DiskBlock) (off : ℕ)
    (s : NssState) : Prop :=
  arch.pAlign.get buf off = 4096 ∧
  FileReads env file (arch.pOffset.get buf off) (arch.pFilesz.get buf off) s ∧
  FileFits s.sys.as.frames (arch.pOffset.get buf off) (arch.pFilesz.get buf off)
    (arch.pVaddr.get buf off) ∧
  ZeroFits s.sys.as.frames ((arch.pVaddr.get buf off + arch.pFilesz.get buf off) % 2 ^ 64)
    ((arch.pMemsz.get buf off + (2 ^ 64 - arch.pFilesz.get buf off)) % 2 ^ 64)

/-- The program headers from `i` on, `n` of them: each that is come to is in one block,
which can be read, and has its members there.  If `all`, each is loaded. -/
def HeadersFine (env : NssEnv) (arch : ElfArch) (file : FsFile) (hdr : DiskBlock) (all : Prop) :
    ℕ → ℕ → NssState → Prop
  | 0, _, _ => True
  | n + 1, i, s =>
    let foff := arch.phdrOff hdr i
    let off := foff % 4096
    off + arch.ePhentsize.get hdr 0 ≤ 4096 ∧ off + 4 ≤ 4096 ∧
    ∃ buf t, readNss env file (foff / 4096 % 2 ^ 32) s = (.ok buf, t) ∧
      if num buf off 4 ≠ ptLoad then HeadersFine env arch file hdr all n (i + 1) t
      else
        off + arch.phdrSize ≤ 4096 ∧ (all → SegmentLoads env arch file buf off t) ∧
        ∀ u, SegmentLoads env arch file buf off t →
          copySegment env file (arch.pOffset.get buf off) (arch.pFilesz.get buf off)
            (arch.pVaddr.get buf off) (arch.pMemsz.get buf off) t = .ok (0, u) →
          HeadersFine env arch file hdr all n (i + 1) u

/-- **The fields have at most 8 bytes**, so what is read of them is a number of 64 bits. -/
structure ElfArch.Narrow (arch : ElfArch) : Prop where
  pVaddr : arch.pVaddr.width ≤ 8
  pFilesz : arch.pFilesz.width ≤ 8
  pMemsz : arch.pMemsz.width ≤ 8

/-- A field read from the header is a 64-bit number. -/
theorem ElfField.get_lt {field : ElfField} (h : field.width ≤ 8) (buf : DiskBlock) (a : ℕ) :
    field.get buf a < 2 ^ 64 :=
  lt_of_lt_of_le (num_lt _ _ _) (by
    calc 256 ^ field.width ≤ 256 ^ 8 := Nat.pow_le_pow_right (by decide) h
      _ = 2 ^ 64 := by norm_num)

section Headers

variable {env : NssEnv} {arch : ElfArch} {file : FsFile} {hdr : DiskBlock} {n i : ℕ}
  {s : NssState}

/-- How a loop ends that started in `s`: without a fault exactly if `fine`, and with
everything loaded exactly if `loaded`. -/
structure LoopEnds (fine loaded : Prop) (s : NssState)
    (r : Except IplFault (Bool × NssState)) : Prop where
  ends : fine ↔ ∃ b t, r = .ok (b, t)
  loads : loaded ↔ ∃ t, r = .ok (true, t)
  host : ∀ b t, r = .ok (b, t) → SameHost s t

variable {fine loaded : Prop} {r : Except IplFault (Bool × NssState)} {t : NssState}

/-- A loop that stops on a fault is not fine and has not loaded everything. -/
theorem LoopEnds.fault {f : IplFault} (hfine : ¬ fine) (hloaded : ¬ loaded) :
    LoopEnds fine loaded s (.error f) where
  ends := iff_of_false hfine fun ⟨_, _, h⟩ => by cases h
  loads := iff_of_false hloaded fun ⟨_, h⟩ => by cases h
  host _ _ h := by cases h

/-- A loop that finds the image corrupt ends, without everything loaded. -/
theorem LoopEnds.corrupt (hfine : fine) (hloaded : ¬ loaded) (hsame : SameHost s t) :
    LoopEnds fine loaded s (.ok (false, t)) where
  ends := iff_of_true hfine ⟨_, _, rfl⟩
  loads := iff_of_false hloaded fun ⟨_, h⟩ => by cases h
  host _ _ h := by
    cases h
    exact hsame

/-- The rest of the loop. -/
theorem LoopEnds.rest {fine' loaded' : Prop} (h : LoopEnds fine loaded t r) (hsame : SameHost s t)
    (hfine : fine' ↔ fine) (hloaded : loaded' ↔ loaded) : LoopEnds fine' loaded' s r where
  ends := hfine.trans h.ends
  loads := hloaded.trans h.loads
  host b u heq := hsame.trans (h.host b u heq)

/-- **How the loop over the program headers ends,** by induction on the headers. -/
theorem loadLoop_ends (env : NssEnv) (file : FsFile) (hdr : DiskBlock) (n i : ℕ) (s : NssState)
    (harch : arch.Narrow) :
    LoopEnds (HeadersFine env arch file hdr False n i s) (HeadersFine env arch file hdr True n i s)
      s (loadLoop env arch file hdr n i s) := by
  induction n generalizing i s with
  | zero =>
    exact ⟨iff_of_true trivial ⟨_, _, rfl⟩, iff_of_true trivial ⟨_, rfl⟩, fun _ _ h => by
      cases h
      exact .refl s⟩
  | succ n ih =>
    rw [HeadersFine, HeadersFine, loadLoop]
    generalize arch.phdrOff hdr i = foff
    by_cases hentry : foff % 4096 + arch.ePhentsize.get hdr 0 ≤ 4096
    case neg =>
      rw [if_pos (by omega)]
      exact .fault (fun h => hentry h.1) fun h => hentry h.1
    rw [if_neg (by omega)]
    have hhost := readNss_sameHost env file (foff / 4096 % 2 ^ 32) s
    cases hread : readNss env file (foff / 4096 % 2 ^ 32) s with
    | mk r t =>
      rw [hread] at hhost
      cases r with
      | error e =>
        exact .fault (fun ⟨_, _, _, _, h, _⟩ => by cases h) fun ⟨_, _, _, _, h, _⟩ => by cases h
      | ok buf =>
        dsimp only
        by_cases hword : foff % 4096 + 4 ≤ 4096
        case neg =>
          rw [if_pos (by omega)]
          exact .fault (fun h => hword h.2.1) fun h => hword h.2.1
        rw [if_neg (by omega)]
        -- what is left of the conditions
        have hcond : ∀ P : DiskBlock → NssState → Prop,
            (foff % 4096 + arch.ePhentsize.get hdr 0 ≤ 4096 ∧ foff % 4096 + 4 ≤ 4096 ∧
              ∃ buf' t', ((Except.ok buf, t) : Except Int DiskBlock × NssState) = (.ok buf', t') ∧
                P buf' t') ↔ P buf t := by
          intro P
          constructor
          · rintro ⟨-, -, buf', t', heq, h⟩
            cases heq
            exact h
          · exact fun h => ⟨hentry, hword, buf, t, rfl, h⟩
        by_cases hload : num buf (foff % 4096) 4 ≠ ptLoad
        · rw [if_pos hload]
          refine (ih (i + 1) t).rest hhost ((hcond _).trans ?_) ((hcond _).trans ?_)
          · rw [if_pos hload]
          · rw [if_pos hload]
        rw [if_neg hload]
        by_cases hsize : foff % 4096 + arch.phdrSize ≤ 4096
        case neg =>
          rw [if_pos (by omega)]
          refine .fault (fun h => ?_) fun h => ?_
          · have h := (hcond _).1 h
            rw [if_neg hload] at h
            exact hsize h.1
          · have h := (hcond _).1 h
            rw [if_neg hload] at h
            exact hsize h.1
        rw [if_neg (by omega)]
        by_cases halign : arch.pAlign.get buf (foff % 4096) = 4096
        case neg =>
          rw [if_pos halign]
          refine .corrupt ((hcond _).2 ?_) (fun h => ?_) hhost
          · rw [if_neg hload]
            exact ⟨hsize, False.elim, fun u hseg => absurd hseg.1 halign⟩
          · have h := (hcond _).1 h
            rw [if_neg hload] at h
            exact halign (h.2.1 trivial).1
        rw [if_neg (not_not.2 halign)]
        obtain ⟨ret, u, hcopy, hsame, hiff⟩ := copySegment_spec env file
          (arch.pOffset.get buf (foff % 4096)) t
          (ElfField.get_lt harch.pVaddr buf (foff % 4096))
          (ElfField.get_lt harch.pMemsz buf (foff % 4096))
          (ElfField.get_lt harch.pFilesz buf (foff % 4096))
        have hseg : SegmentLoads env arch file buf (foff % 4096) t ↔ ret = 0 :=
          (and_iff_right halign).trans hiff.symm
        rw [hcopy]
        dsimp only
        by_cases hret : ret = 0
        case neg =>
          rw [if_pos hret]
          refine .corrupt ((hcond _).2 ?_) (fun h => ?_) (hhost.trans hsame)
          · rw [if_neg hload]
            exact ⟨hsize, False.elim, fun _ h => absurd (hseg.1 h) hret⟩
          · have h := (hcond _).1 h
            rw [if_neg hload] at h
            exact hret (hseg.1 (h.2.1 trivial))
        rw [if_neg (not_not.2 hret)]
        subst hret
        have hrest : ∀ all, (foff % 4096 + arch.phdrSize ≤ 4096 ∧
            (all → SegmentLoads env arch file buf (foff % 4096) t) ∧
            ∀ u', SegmentLoads env arch file buf (foff % 4096) t →
              copySegment env file (arch.pOffset.get buf (foff % 4096))
                (arch.pFilesz.get buf (foff % 4096)) (arch.pVaddr.get buf (foff % 4096))
                (arch.pMemsz.get buf (foff % 4096)) t = .ok (0, u') →
              HeadersFine env arch file hdr all n (i + 1) u') ↔
            HeadersFine env arch file hdr all n (i + 1) u := by
          intro all
          constructor
          · exact fun h => h.2.2 u (hseg.2 rfl) hcopy
          · refine fun h => ⟨hsize, fun _ => hseg.2 rfl, fun u' _ heq => ?_⟩
            obtain rfl : u = u' := by
              rw [hcopy] at heq
              cases heq
              rfl
            exact h
        refine (ih (i + 1) u).rest (hhost.trans hsame) ((hcond _).trans ?_)
          ((hcond _).trans ?_)
        · rw [if_neg hload]
          exact hrest False
        · rw [if_neg hload]
          exact hrest True

end Headers

/-! ### The system -/

/-- The call returns, with the designation loaded that was loaded before: with 0 and the
guest stopped, or with an error and the guest in the check-stop state. -/
def IplClean (s : NssState) (r : Except IplFault (Int × NssState)) : Prop :=
  ∃ ret t, r = .ok (ret, t) ∧ t.pasce = s.pasce ∧
    (ret = 0 ∧ t.sys.state = .stopped ∨ ret < 0 ∧ t.sys.state = .checkstop)

/-- The load behind the check of the header: it has a segment table to switch to, it is
never told to give up, and it comes back to the designation of the caller, which is the
guest's, or is not 0 while everything is loaded. -/
def LoadFine (env : NssEnv) (file : FsFile) (hdr : DiskBlock) (s : NssState) : Prop :=
  env.segmentTable ≠ 0 ∧
  let t := { s with sys := iplLoad s.sys, pasce := asce env.segmentTable }
  let n := (elfArch hdr).ePhnum.get hdr 0
  (s.pasce = asce env.segmentTable ∧ HeadersFine env (elfArch hdr) file hdr False n 0 t ∨
    s.pasce ≠ 0 ∧ HeadersFine env (elfArch hdr) file hdr True n 0 t)

/-- The name is too long, there is no such file, its header cannot be read or is not one,
or the load is fine.  The lookup stays in the blocks of the directory, and what it finds
has fixed records of 4096 bytes. -/
def IplFine (env : NssEnv) (nssname : List UInt8) (s : NssState) : Prop :=
  8 < nssname.length ∨
    match edfLookup env.disk env.fails env.ebcdic (nssFn env.upper nssname) nssFileType s.fs with
    | none => False
    | some (.error _, _) => True
    | some (.ok file, fs) =>
      Fst.lrecl file.fst = 4096 ∧ Fst.recfm file.fst = fstDFix ∧
        match readNss env file 0 (s.opened file fs) with
        | (.error _, _) => True
        | (.ok hdr, t) => elfHeaderOk hdr = true → LoadFine env file hdr t

section Ipl

variable {env : NssEnv} {file : FsFile} {hdr : DiskBlock} {s : NssState}

/-- Every field of either layout is at most eight bytes wide. -/
theorem elfArch_narrow (hdr : DiskBlock) : (elfArch hdr).Narrow := by
  unfold elfArch
  split
  · constructor <;> decide
  · constructor <;> decide

/-- An address-space control element is never 0, so the test for one that is set works. -/
theorem asce_ne_zero (segmentTable : BitVec 64) : asce segmentTable ≠ 0 := by
  intro hzero
  have hbit := congrArg (fun b : BitVec 64 => b.getLsbD 0) hzero
  simp [asce] at hbit

/-- An error that puts the guest in the check-stop state is a clean end, if the designation is
the one from before. -/
theorem IplClean.checkstop {ret : Int} {t : NssState} (hret : ret < 0) (h : t.pasce = s.pasce) :
    IplClean s (.ok (ret, t.checkstop)) :=
  ⟨ret, _, rfl, h, Or.inr ⟨hret, rfl⟩⟩

/-- A fault is never a clean end. -/
theorem not_iplClean_fault {f : IplFault} : ¬ IplClean s (.error f) := by
  rintro ⟨_, _, h, _⟩
  cases h

/-- **When the header's part of an IPL is clean**: exactly when, with a header it takes, the
load of the image is fine. -/
theorem iplHeader_clean_iff (s₀ : NssState) (h₀ : s.pasce = s₀.pasce) :
    IplClean s₀ (iplHeader env file hdr s) ↔
      (elfHeaderOk hdr = true → LoadFine env file hdr s) := by
  rw [iplHeader]
  cases hok : elfHeaderOk hdr with
  | false => exact iff_of_true (.checkstop (by decide) h₀) nofun
  | true =>
    rw [if_neg (by decide), LoadFine]
    by_cases htable : env.segmentTable = 0
    · rw [if_pos htable]
      exact iff_of_false not_iplClean_fault fun h => (h rfl).1 htable
    rw [if_neg htable]
    dsimp only
    have hends := loadLoop_ends env file hdr ((elfArch hdr).ePhnum.get hdr 0) 0
      { s with sys := iplLoad s.sys, pasce := asce env.segmentTable } (elfArch_narrow hdr)
    have hasce := asce_ne_zero env.segmentTable
    cases hloop : loadLoop env (elfArch hdr) file hdr ((elfArch hdr).ePhnum.get hdr 0) 0
        { s with sys := iplLoad s.sys, pasce := asce env.segmentTable } with
    | error f =>
      rw [hloop] at hends
      refine iff_of_false not_iplClean_fault fun h => ?_
      rcases (h rfl).2 with ⟨-, hfine⟩ | ⟨-, hfine⟩
      · obtain ⟨_, _, heq⟩ := hends.ends.1 hfine
        cases heq
      · obtain ⟨_, heq⟩ := hends.loads.1 hfine
        cases heq
    | ok r =>
      obtain ⟨b, t⟩ := r
      rw [hloop] at hends
      have hpasce : t.pasce = asce env.segmentTable := (hends.host b t rfl).pasce
      have hfine := hends.ends.2 ⟨b, t, rfl⟩
      cases b with
      | false =>
        have hloads : ¬ HeadersFine env (elfArch hdr) file hdr True _ 0 _ := fun h => by
          obtain ⟨_, heq⟩ := hends.loads.1 h
          cases heq
        constructor
        · rintro ⟨_, _, heq, hsame, -⟩ -
          cases heq
          exact ⟨htable, Or.inl ⟨h₀.trans (hsame.symm.trans hpasce), hfine⟩⟩
        · intro h
          rcases (h rfl).2 with ⟨heq, -⟩ | ⟨-, h⟩
          · exact .checkstop (by decide) (hpasce.trans (heq.symm.trans h₀))
          · exact absurd h hloads
      | true =>
        have hloads := hends.loads.2 ⟨t, rfl⟩
        dsimp only
        by_cases hzero : s.pasce = 0
        · -- `load_pasce` does nothing
          rw [loadPasce, if_pos hzero]
          refine iff_of_false ?_ fun h => ?_
          · rintro ⟨_, _, heq, hsame, -⟩
            cases heq
            exact hasce (hpasce.symm.trans (hsame.trans (h₀.symm.trans hzero)))
          · rcases (h rfl).2 with ⟨heq, -⟩ | ⟨hne, -⟩
            · exact hasce (heq.symm.trans hzero)
            · exact hne hzero
        · rw [loadPasce, if_neg hzero]
          exact iff_of_true ⟨0, _, rfl, h₀, Or.inl ⟨rfl, rfl⟩⟩ fun _ =>
            ⟨htable, Or.inr ⟨hzero, hloads⟩⟩

/-- **Which loads are clean:** for any name, file system, guest and failures, the call ends
with the address space from before, and the guest stopped or in check-stop, exactly if the
name is too long, the lookup or the header fails, or the load of the program headers comes
to no `goto corrupt` while the guest's own address space is loaded, and to nothing worse. -/
theorem guestIplNss_clean_iff (env : NssEnv) (nssname : List UInt8) (s : NssState) :
    IplClean s (guestIplNss env nssname s) ↔ IplFine env nssname s := by
  rw [guestIplNss, IplFine]
  by_cases hlong : 8 < nssname.length
  · rw [if_pos (by omega)]
    exact iff_of_true (.checkstop (by decide) rfl) (Or.inl hlong)
  rw [if_neg (by omega), or_iff_right hlong]
  cases edfLookup env.disk env.fails env.ebcdic (nssFn env.upper nssname) nssFileType s.fs with
  | none => exact iff_of_false not_iplClean_fault id
  | some r =>
    obtain ⟨r, fs⟩ := r
    cases r with
    | error e =>
      have hret : (if e = -enoent then -enoent else -eio) < 0 := by
        by_cases he : e = -enoent
        · rw [if_pos he]
          decide
        · rw [if_neg he]
          decide
      exact iff_of_true (.checkstop hret rfl) trivial
    | ok file =>
      dsimp only
      by_cases hfst : Fst.lrecl file.fst ≠ 4096 ∨ Fst.recfm file.fst ≠ fstDFix
      · rw [if_pos hfst]
        refine iff_of_false not_iplClean_fault fun h => ?_
        rcases hfst with hlrecl | hrecfm
        · exact hlrecl h.1
        · exact hrecfm h.2.1
      rw [if_neg hfst]
      rw [not_or, not_not, not_not] at hfst
      have hhost := readNss_sameHost env file 0 (s.opened file fs)
      cases hread : readNss env file 0 (s.opened file fs) with
      | mk r t =>
        rw [hread] at hhost
        have hpasce : t.pasce = s.pasce := hhost.pasce
        cases r with
        | error e => exact iff_of_true (.checkstop (by decide) hpasce) ⟨hfst.1, hfst.2, trivial⟩
        | ok hdr =>
          rw [iplHeader_clean_iff s hpasce]
          exact ⟨fun h => ⟨hfst.1, hfst.2, h⟩, fun h => h.2.2⟩

end Ipl

/-- A disk with the file `LOGIN NSS`, an ELF file whose only segment is not aligned. -/
def nssDisk (lba : ℕ) : DiskBlock := fun i =>
  if lba = 5 then
    (fstBytes directorName 3 ++ fstBytes allocmapName 1 ++
      (nssFn id [0x4C, 0x4F, 0x47, 0x49, 0x4E] ++ nssFileType).map ebcdicLetter ++
      List.replicate 14 0 ++ [0xC6, 0, 0, 0, 0x10, 0, 0, 0, 0, 0] ++
      [0, 0, 0, 6, 0, 0, 0, 1, 0, 0, 0, 1, 0, 4] ++ List.replicate 10 0).getD i 0
  else if lba = 6 then
    ([0x7f, 0x45, 0x4c, 0x46, 1, 2, 1, 0, 0, 0, 0, 0, 0, 0, 0, 0, 0, 2, 0, 22, 0, 0, 0, 1,
      0, 0, 0, 0, 0, 0, 0, 52, 0, 0, 0, 0, 0, 0, 0, 0, 0, 52, 0, 32, 0, 1, 0, 0, 0, 0, 0, 0,
      0, 0, 0, 1, 0, 0, 0, 0, 0, 0, 0, 0, 0, 0, 0, 0, 0, 0, 0, 0, 0, 0, 0, 0, 0, 0, 0, 0,
      0, 0, 0, 1]).getD i 0
  else 0

/-- The examples' host: a volume in memory, no failing read, and 8 kB of guest storage. -/
def nssEnv : NssEnv := ⟨nssDisk, fun _ => 0, ebcdicLetter, id, 0x2000⟩

/-- The disk is mounted, and the caller has another address space than the guest's. -/
def nssStart : NssState where
  sys := newGuest
  fs :=
    { dbsiz := 4096, dop := 5, nfst := 64, dir := ⟨0, fstAt (nssDisk 5) 0⟩,
      files := [⟨0, fstAt (nssDisk 5) 0⟩], bcache := ⟨[⟨0, 0, 5, none⟩], 6⟩, count := 1 }
  caches _ := []
  pasce := 0x1003

/-- The load finds a program header it does not like, and `goto corrupt` returns with the
guest's address space still loaded. -/
theorem not_guestIplNss_clean : ¬ ∀ (env : NssEnv) (nssname : List UInt8) (s : NssState),
    IplClean s (guestIplNss env nssname s) := by
  intro hall
  have hend : (guestIplNss nssEnv [0x4C, 0x4F, 0x47, 0x49, 0x4E] nssStart).toOption.map
      (fun r => (r.1, r.2.pasce)) = some (-ecorrupt, 0x2003) := by decide +kernel
  obtain ⟨ret, t, heq, hpasce, -⟩ := hall nssEnv [0x4C, 0x4F, 0x47, 0x49, 0x4E] nssStart
  rw [heq] at hend
  have hfinal : t.pasce = 0x2003 := congrArg Prod.snd (Option.some.inj hend)
  rw [hpasce] at hfinal
  exact absurd hfinal (by decide)

end Hvf
