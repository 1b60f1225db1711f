/-
# Block addresses of a disk

`d3390_reg` and `d3390_read` of `cp/drivers/dasd.c`.  The geometry of a disk is read from
the device; a block number, from 1 on, is divided into a cylinder, a head and a record,
which are 16-bit numbers, and stored in the data of the SEEK and the SEARCH.

Neither function compares anything with the number of cylinders, and a disk without
tracks is accepted.  The addresses are right up to the block where the cylinder has
more than 16 bits (`d3390_addresses_iff`), which comes before the last `int` unless a
cylinder has 2731 tracks or more.
-/

import Hvf.Errno
import Mathlib.Tactic

namespace Hvf

/-- `ceil_quot`. -/
def ceilQuot (d₁ d₂ : ℕ) : ℕ := (d₁ + (d₂ - 1)) / d₂

/-- `d3390_recs_per_track`. -/
def d3390RecsPerTrack (kl dl : ℕ) : ℕ :=
  let dn := ceilQuot (dl + 6) 232 + 1
  if kl ≠ 0 then
    let kn := ceilQuot (kl + 6) 232 + 1
    1729 / (10 + 9 + ceilQuot (kl + 6 * kn) 34 + 9 + ceilQuot (dl + 6 * dn) 34)
  else 1729 / (10 + 9 + ceilQuot (dl + 6 * dn) 34)

/-- **The characteristics of a disk** (`dev->eckd`), as `d3390_reg` stores them from what
the device answers to Read Device Characteristics. -/
structure Eckd where
  cyls : UInt16
  tracks : UInt16
  len : UInt16
  recs : UInt16
  sectors : UInt8
  formula : UInt8
  f1 : UInt16
  f2 : UInt16
  f3 : UInt16
  f4 : UInt16
  f5 : UInt16

/-- `(hi << 8) | lo`. -/
def u16Of (hi lo : UInt8) : UInt16 := (hi.toUInt16 <<< 8) ||| lo.toUInt16

/-- `d3390_reg` of a device of the model, where the I/O returned `ret` and left the
device characteristics in `buf`. -/
def d3390Geometry (model : UInt8) (ret : Int) (buf : ℕ → UInt8) : Except Int Eckd :=
  if model ∉ [0x02, 0x06, 0x0a, 0x0c] then .error (-enoent)
  else if ret ≠ 0 then .error ret
  else
    let eckd : Eckd :=
      { cyls := u16Of (buf 12) (buf 13)
        tracks := u16Of (buf 14) (buf 15)
        recs := .ofNat (d3390RecsPerTrack 0 4096)
        sectors := buf 16
        len := u16Of (buf 18) (buf 19)
        formula := buf 22
        f1 := 0, f2 := 0, f3 := 0, f4 := 0, f5 := 0 }
    if buf 22 = 1 then
      .ok { eckd with
        f1 := (buf 23).toUInt16, f2 := u16Of (buf 24) (buf 25), f3 := u16Of (buf 26) (buf 27) }
    else if buf 22 = 2 then
      .ok { eckd with
        f1 := (buf 23).toUInt16, f2 := (buf 24).toUInt16, f3 := (buf 25).toUInt16
        f4 := (buf 26).toUInt16, f5 := (buf 27).toUInt16 }
    else .error (-einval)

/-- **The place of a block**: cylinder, head and record, the 16-bit `cc`, `hh` and `r` of
`d3390_read`. -/
structure BlockAddr where
  cc : UInt16
  hh : UInt16
  r : UInt16
  deriving DecidableEq

/-- `seek_data`. -/
def BlockAddr.seekData (a : BlockAddr) : List UInt8 :=
  [0, 0, (a.cc >>> 8).toUInt8, a.cc.toUInt8, (a.hh >>> 8).toUInt8, a.hh.toUInt8]

/-- `search_data`. -/
def BlockAddr.searchData (a : BlockAddr) : List UInt8 :=
  [(a.cc >>> 8).toUInt8, a.cc.toUInt8, (a.hh >>> 8).toUInt8, a.hh.toUInt8, a.r.toUInt8]

/-- The divisions of `d3390_read`. -/
def blockAddr (rpt rpc lba : ℕ) : BlockAddr where
  cc := .ofNat (lba / rpc)
  hh := .ofNat (lba % rpc / rpt)
  r := .ofNat (lba % rpc % rpt) + 1

/-- `d3390_read` up to the channel program; `none` is a division by zero.  The product
`rpc` has less than 31 bits for the geometries of `d3390_reg`. -/
def d3390Addr (e : Eckd) (lba : Int) : Option (Except Int BlockAddr) :=
  let rpt := e.recs.toNat
  let rpc := e.tracks.toNat * rpt
  if lba < 1 then some (.error (-einval))
  else
    let lba := (lba - 1).toNat
    if rpc = 0 ∨ rpt = 0 then none else some (.ok (blockAddr rpt rpc lba))

/-- Every block up to `n` that is accepted has a head and a record that the disk has, and
no other one is looked for at its place. -/
def AddressesApart (e : Eckd) (n : Int) : Prop :=
  ∀ lba ≤ n, d3390Addr e lba ≠ some (.error (-einval)) → ∃ a, d3390Addr e lba = some (.ok a) ∧
    a.hh < e.tracks ∧ 1 ≤ a.r ∧ a.r ≤ e.recs ∧
    ∀ lba' ≤ n, ∀ a', d3390Addr e lba' = some (.ok a') →
      a'.seekData = a.seekData ∧ a'.searchData = a.searchData → lba' = lba

/-- There are no blocks, or the last one has a cylinder of 16 bits. -/
def CylindersFit (e : Eckd) (n : Int) : Prop :=
  n < 1 ∨ (e.tracks ≠ 0 ∧ n ≤ 65536 * (12 * e.tracks.toNat))

/-! ### The geometry -/

variable {e : Eckd} {lba n : Int}

/-- Twelve blocks of 4096 bytes on a track. -/
theorem d3390RecsPerTrack_block : d3390RecsPerTrack 0 4096 = 12 := by decide

/-- The geometry that `d3390_reg` stores has twelve records to a track, for every model it
takes. -/
theorem d3390Geometry_recs {model : UInt8} {ret : Int} {buf : ℕ → UInt8}
    (h : d3390Geometry model ret buf = .ok e) : e.recs = 12 := by
  unfold d3390Geometry at h
  rw [d3390RecsPerTrack_block] at h
  split_ifs at h with hmodel hret hone htwo
  · obtain rfl := Except.ok.inj h
    rfl
  · obtain rfl := Except.ok.inj h
    rfl

/-! ### Places -/

/-- Two bytes are a 16-bit number. -/
theorem u16_ext {a b : UInt16} (hhi : (a >>> 8).toUInt8 = (b >>> 8).toUInt8)
    (hlo : a.toUInt8 = b.toUInt8) : a = b := by
  have hhi := congrArg UInt8.toNat hhi
  have hlo := congrArg UInt8.toNat hlo
  simp only [UInt16.toNat_toUInt8, UInt16.toNat_shiftRight, Nat.shiftRight_eq_div_pow,
    show UInt16.toNat 8 % 16 = 8 from rfl] at hhi hlo
  have ha := a.toNat_lt
  have hb := b.toNat_lt
  exact UInt16.toNat_inj.1 (by omega)

/-- The data of the SEEK and the SEARCH say which place it is. -/
theorem BlockAddr.ext_data {a b : BlockAddr} (ha : a.r.toNat < 256) (hb : b.r.toNat < 256)
    (h : a.searchData = b.searchData) : a = b := by
  simp only [BlockAddr.searchData, List.cons.injEq, and_true] at h
  obtain ⟨hchi, hclo, hhhi, hhlo, hr⟩ := h
  have hcc := u16_ext hchi hclo
  have hhh := u16_ext hhhi hhlo
  have hr := congrArg UInt8.toNat hr
  rw [UInt16.toNat_toUInt8, UInt16.toNat_toUInt8, Nat.mod_eq_of_lt ha, Nat.mod_eq_of_lt hb] at hr
  have hrr := UInt16.toNat_inj.1 hr
  cases a
  cases b
  rw [BlockAddr.mk.injEq]
  exact ⟨hcc, hhh, hrr⟩

/-- Block numbers begin at 1; a smaller one is refused with `-EINVAL`. -/
theorem d3390Addr_error (h : lba < 1) : d3390Addr e lba = some (.error (-einval)) := by
  rw [d3390Addr]
  exact if_pos h

/-- A disk without tracks. -/
theorem d3390Addr_none (htracks : e.tracks = 0) (h : 1 ≤ lba) : d3390Addr e lba = none := by
  rw [d3390Addr]
  dsimp only
  rw [if_neg (by omega), htracks]
  exact if_pos (Or.inl (Nat.zero_mul _))

/-- A block number from 1 on is placed at its track and record, once the geometry has twelve
records to a track and some tracks. -/
theorem d3390Addr_ok (hrecs : e.recs = 12) (htracks : e.tracks ≠ 0) (h : 1 ≤ lba) :
    d3390Addr e lba = some (.ok (blockAddr 12 (e.tracks.toNat * 12) (lba - 1).toNat)) := by
  have hpos : e.tracks.toNat ≠ 0 := fun hzero => htracks (UInt16.toNat_inj.1 hzero)
  have htwelve : e.recs.toNat = 12 := by
    rw [hrecs]
    rfl
  rw [d3390Addr]
  dsimp only
  rw [if_neg (by omega), htwelve, if_neg (by omega)]

/-- A head that the disk has. -/
theorem blockAddr_hh {t : ℕ} (ht : t ≠ 0) (hlt : t < 65536) (m : ℕ) :
    (blockAddr 12 (t * 12) m).hh.toNat = m % (t * 12) / 12 ∧ m % (t * 12) / 12 < t := by
  have hhead : m % (t * 12) / 12 < t := by
    refine Nat.div_lt_of_lt_mul ?_
    rw [Nat.mul_comm 12]
    exact Nat.mod_lt _ (by omega)
  refine ⟨?_, hhead⟩
  show (UInt16.ofNat _).toNat = _
  rw [UInt16.toNat_ofNat', Nat.mod_eq_of_lt (by omega)]

/-- A record that a track has. -/
theorem blockAddr_r (t m : ℕ) : (blockAddr 12 (t * 12) m).r.toNat = m % (t * 12) % 12 + 1 ∧
    m % (t * 12) % 12 < 12 := by
  have hlt : m % (t * 12) % 12 < 12 := Nat.mod_lt _ (by norm_num)
  refine ⟨?_, hlt⟩
  show (UInt16.ofNat _ + 1).toNat = _
  rw [UInt16.toNat_add, UInt16.toNat_ofNat']
  show (_ % _ + 1) % _ = _
  omega

/-- A cylinder that is not cut off. -/
theorem blockAddr_cc {t m : ℕ} (h : m < 65536 * (12 * t)) :
    (blockAddr 12 (t * 12) m).cc.toNat = m / (t * 12) := by
  show (UInt16.ofNat _).toNat = _
  rw [UInt16.toNat_ofNat', Nat.mod_eq_of_lt]
  refine Nat.div_lt_of_lt_mul ?_
  omega

/-- The divisions can be undone. -/
theorem lba_eq (t : ℕ) {m m' : ℕ} (hcc : m / (t * 12) = m' / (t * 12))
    (hhh : m % (t * 12) / 12 = m' % (t * 12) / 12)
    (hr : m % (t * 12) % 12 = m' % (t * 12) % 12) : m = m' := by
  have hin : m % (t * 12) = m' % (t * 12) := by
    rw [← Nat.div_add_mod (m % (t * 12)) 12, hhh, hr, Nat.div_add_mod]
  rw [← Nat.div_add_mod m (t * 12), hcc, hin, Nat.div_add_mod]

/-- The places up to `n` are apart if the last cylinder has 16 bits. -/
theorem CylindersFit.apart (hrecs : e.recs = 12) (h : CylindersFit e n) : AddressesApart e n := by
  intro lba hle haccepted
  have hlba : 1 ≤ lba := by
    by_contra hlt
    exact haccepted (d3390Addr_error (by omega))
  obtain ⟨htracks, hn⟩ := h.resolve_left (by omega)
  have hpos : e.tracks.toNat ≠ 0 := fun hzero => htracks (UInt16.toNat_inj.1 hzero)
  obtain ⟨hhh, hhead⟩ := blockAddr_hh hpos e.tracks.toNat_lt (lba - 1).toNat
  obtain ⟨hr, hrec⟩ := blockAddr_r e.tracks.toNat (lba - 1).toNat
  refine ⟨_, d3390Addr_ok hrecs htracks hlba, ?_, ?_, ?_, fun lba' hle' a' ha' hsame => ?_⟩
  · rw [UInt16.lt_iff_toNat_lt, hhh]
    exact hhead
  · rw [UInt16.le_iff_toNat_le, hr]
    exact Nat.le_add_left ..
  · rw [UInt16.le_iff_toNat_le, hr, hrecs]
    exact hrec
  · have hlba' : 1 ≤ lba' := by
      by_contra hlt
      rw [d3390Addr_error (by omega)] at ha'
      exact nomatch Option.some.inj ha'
    rw [d3390Addr_ok hrecs htracks hlba'] at ha'
    obtain rfl := Except.ok.inj (Option.some.inj ha')
    obtain ⟨hhh', -⟩ := blockAddr_hh hpos e.tracks.toNat_lt (lba' - 1).toNat
    obtain ⟨hr', hrec'⟩ := blockAddr_r e.tracks.toNat (lba' - 1).toNat
    have haddr := BlockAddr.ext_data (by omega) (by omega) hsame.2
    have heq : (lba' - 1).toNat = (lba - 1).toNat := by
      refine lba_eq e.tracks.toNat ?_ ?_ ?_
      · rw [← blockAddr_cc (by omega), ← blockAddr_cc (by omega), haddr]
      · rw [← hhh', ← hhh, haddr]
      · exact Nat.succ_injective (hr'.symm.trans ((congrArg (·.r.toNat) haddr).trans hr))
    omega

/-- **A cylinder that is cut off** is that of block 1. -/
theorem d3390Addr_again (hrecs : e.recs = 12) (htracks : e.tracks ≠ 0) :
    d3390Addr e (65536 * (12 * e.tracks.toNat) + 1) = d3390Addr e 1 := by
  have hpos : e.tracks.toNat ≠ 0 := fun hzero => htracks (UInt16.toNat_inj.1 hzero)
  have hlba : (65536 * (12 * (e.tracks.toNat : Int)) + 1 - 1).toNat
      = 65536 * (e.tracks.toNat * 12) := by omega
  rw [d3390Addr_ok hrecs htracks (by omega), d3390Addr_ok hrecs htracks le_rfl, hlba, blockAddr,
    blockAddr, Nat.mul_mod_left, Nat.mul_div_cancel _ (by omega)]
  -- 65536 cylinders are none
  simp

/-- **The addresses of the blocks up to `n` are apart exactly when** there are none, or the
disk has tracks and the cylinder of the last one has 16 bits. The cylinder is computed as an
`int` and stored in a `u16`. -/
theorem d3390_addresses_iff {model : UInt8} {ret : Int} {buf : ℕ → UInt8} {e : Eckd}
    (hreg : d3390Geometry model ret buf = .ok e) (n : Int) :
    AddressesApart e n ↔ CylindersFit e n := by
  have hrecs := d3390Geometry_recs hreg
  refine ⟨fun h => ?_, fun h => h.apart hrecs⟩
  by_contra hnot
  obtain ⟨hn, hfit⟩ := not_or.1 hnot
  by_cases htracks : e.tracks = 0
  · obtain ⟨a, ha, -⟩ := h 1 (by omega) (by rw [d3390Addr_none htracks le_rfl]; nofun)
    rw [d3390Addr_none htracks le_rfl] at ha
    exact nomatch ha
  · have hlast : 65536 * (12 * (e.tracks.toNat : Int)) < n := by
      by_contra hle
      exact hfit ⟨htracks, by omega⟩
    have hok := d3390Addr_ok hrecs htracks (le_refl (1 : Int))
    obtain ⟨a, ha, -, -, -, hapart⟩ := h 1 (by omega) (by rw [hok]; nofun)
    have hpos : e.tracks.toNat ≠ 0 := fun hzero => htracks (UInt16.toNat_inj.1 hzero)
    have heq := hapart _ hlast a ((d3390Addr_again hrecs htracks).trans ha) ⟨rfl, rfl⟩
    omega

/-- Device characteristics: 3339 cylinders of 15 tracks, formula 1. -/
def characteristics : ℕ → UInt8
  | 12 => 0x0d
  | 13 => 0x0b
  | 15 => 15
  | 22 => 1
  | _ => 0

/-- The first 65536 cylinders of a disk of 15 tracks a cylinder: the addresses of these
blocks are apart. -/
theorem d3390_addresses_iff_disk : ∃ e, d3390Geometry 0x0a 0 characteristics = .ok e ∧
    AddressesApart e (3339 * 15 * 12) := by
  obtain ⟨e, hreg⟩ : ∃ e, d3390Geometry 0x0a 0 characteristics = .ok e := ⟨_, rfl⟩
  refine ⟨e, hreg, (d3390_addresses_iff hreg _).2 (Or.inr ?_)⟩
  obtain rfl := Except.ok.inj hreg
  decide

/-- **Blocks 1 and 11796481** of that disk have the same address: their cylinders, 0 and
65536, have the same 16 bits. -/
theorem not_d3390_addresses : ¬ ∀ (model : UInt8) (ret : Int) (buf : ℕ → UInt8) (e : Eckd),
    d3390Geometry model ret buf = .ok e → AddressesApart e (2 ^ 31 - 1) := by
  intro h
  obtain ⟨a, ha, -, -, -, hapart⟩ := h 0x0a 0 characteristics _ rfl 1 (by norm_num) (by decide)
  have heq := hapart 11796481 (by norm_num) a ha ⟨rfl, rfl⟩
  exact absurd heq (by norm_num)

end Hvf
