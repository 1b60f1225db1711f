/-
# The SHA-1 digest

`lib/digest.c`.  The context carries the chaining value, the number of message
bits hashed so far and up to 63 bytes that do not fill a block yet:

| call | data | hashed from |
| --- | --- | --- |
| update | fills the buffer | the buffer, then whole blocks of the data |
| update | does not fill it | nothing |
| finalize | fills the buffer | the buffer, then the rest of the data |
| finalize | does not fill it | the buffer |

`KIMD` and `KLMD` are instructions.  `compress` is the compression function they
apply; every one of them that is issued is also recorded, with the data it is
given.
-/

import Hvf.Errno
import Hvf.Lib.Blocks

namespace Hvf

open Blocks

/-! ### The instructions -/

/-- The chaining value, `H`. -/
abbrev Sha1State := List UInt32

/-- **A compute digest instruction**: KIMD over whole blocks, or KLMD over what is left.
KLMD reads the message bit length, `mbl`, from behind the intermediate value `H`. -/
inductive DigestInsn
  | kimd (data : List UInt8)
  | klmd (mbl : UInt64) (data : List UInt8)
deriving DecidableEq

section Digest

variable (compress : Sha1State → List UInt8 → Sha1State)

/-- `KIMD`: the whole blocks of the data. -/
def kimd (H : Sha1State) (data : List UInt8) : Sha1State := foldBlocks 64 compress H data

/-- The bytes of a big-endian doubleword. -/
def doublewordBytes (w : UInt64) : List UInt8 :=
  (List.range 8).map fun i => (w >>> (56 - 8 * i).toUInt64).toUInt8

/-- The padding behind `len` bytes: a one bit, zeros, and the bit length. -/
def sha1Pad (len : ℕ) (mbl : UInt64) : List UInt8 :=
  [0x80] ++ List.replicate ((119 - len % 64) % 64) 0 ++ doublewordBytes mbl

/-- **The padding fills a block.** Whatever the length left over, data and padding together are
whole blocks of 64 bytes. -/
theorem sha1Pad_dvd (len : ℕ) (mbl : UInt64) : 64 ∣ len + (sha1Pad len mbl).length := by
  simp only [sha1Pad, doublewordBytes, List.length_append, List.length_singleton,
    List.length_replicate, List.length_map, List.length_range]
  omega

/-- `KLMD`: the data and its padding. -/
def klmd (H : Sha1State) (mbl : UInt64) (data : List UInt8) : Sha1State :=
  foldBlocks 64 compress H (data ++ sha1Pad data.length mbl)

/-! ### The context -/

/-- **The context of a SHA-1 digest** (`struct digest_ctx_sha1`): the intermediate value,
the bit length so far, and the bytes that do not fill a block yet. -/
structure DigestCtxSha1 where
  H : Sha1State
  mbl : UInt64
  buflen : ℕ
  buf : List UInt8

/-- **The context of a digest** (`struct digest_ctx`): the function code, and the context of
the one function that there is. -/
structure DigestCtx where
  type : ℕ
  sha1 : DigestCtxSha1

/-- `memcpy(buf + off, data, data.length)`. -/
def memcpyTo (buf : List UInt8) (off : ℕ) (data : List UInt8) : List UInt8 :=
  buf.take off ++ data ++ buf.drop (off + data.length)

/-- `sha1_init`. -/
def sha1Init (ctx : DigestCtxSha1) : DigestCtxSha1 :=
  { ctx with
    H := [0x67452301, 0xEFCDAB89, 0x98BADCFE, 0x10325476, 0xC3D2E1F0]
    mbl := 0
    buflen := 0 }

/-- `__sha1_update` while there is something in the buffer; the second component
is what is left to hash. -/
def fillBuffer (ctx : DigestCtxSha1) (data : List UInt8) (final : Bool) :
    DigestCtxSha1 × List UInt8 × List DigestInsn :=
  let copy := min (64 - ctx.buflen) data.length
  let ctx := { ctx with
    buf := memcpyTo ctx.buf ctx.buflen (data.take copy), buflen := ctx.buflen + copy }
  let data := data.drop copy
  if ctx.buflen = 64 then
    ({ ctx with
        H := kimd compress ctx.H (ctx.buf.take ctx.buflen)
        mbl := ctx.mbl + (ctx.buflen <<< 3).toUInt64
        buflen := 0 },
      data, [.kimd (ctx.buf.take ctx.buflen)])
  else if final then (ctx, ctx.buf.take ctx.buflen, [])
  else (ctx, data, [])

/-- `__sha1_update` from the tail on. -/
def hashData (ctx : DigestCtxSha1) (data : List UInt8) (final : Bool) :
    DigestCtxSha1 × List DigestInsn :=
  let tail := data.length % 64
  let len := data.length - tail
  let (ctx, data) :=
    if ¬ final ∧ tail ≠ 0 then
      ({ ctx with buf := memcpyTo ctx.buf 0 (data.drop len), buflen := tail }, data.take len)
    else (ctx, data)
  let ctx := { ctx with mbl := ctx.mbl + (data.length <<< 3).toUInt64 }
  if final then ({ ctx with H := klmd compress ctx.H ctx.mbl data }, [.klmd ctx.mbl data])
  else ({ ctx with H := kimd compress ctx.H data }, [.kimd data])

/-- `__sha1_update`. -/
def _sha1Update (ctx : DigestCtxSha1) (data : List UInt8) (final : Bool) :
    DigestCtxSha1 × List DigestInsn :=
  let (ctx, data, insns) :=
    if ctx.buflen ≠ 0 then fillBuffer compress ctx data final else (ctx, data, [])
  let (ctx, insns') := hashData compress ctx data final
  (ctx, insns ++ insns')

/-- `sha1_update`. -/
def sha1Update (ctx : DigestCtxSha1) (data : List UInt8) : DigestCtxSha1 × List DigestInsn :=
  _sha1Update compress ctx data false

/-- `sha1_finalize`. -/
def sha1Finalize (ctx : DigestCtxSha1) (data : List UInt8) : DigestCtxSha1 × List DigestInsn :=
  _sha1Update compress ctx data true

/-! ### The types of digest -/

/-- `DIGEST_QUERY`: the function code that asks which functions KIMD has. -/
def digestQuery : ℕ := 0
/-- `DIGEST_SHA1`: the function code of SHA-1. -/
def digestSha1 : ℕ := 1

/-- **A row of the table of digests** (`struct digest_info`): the three functions of an
algorithm. Those of `DIGEST_QUERY` are null. -/
structure DigestInfo where
  init : Option (DigestCtxSha1 → DigestCtxSha1)
  update : Option (DigestCtxSha1 → List UInt8 → DigestCtxSha1 × List DigestInsn)
  finalize : Option (DigestCtxSha1 → List UInt8 → DigestCtxSha1 × List DigestInsn)

/-- `digests`. -/
def digests : List DigestInfo :=
  [{ init := none, update := none, finalize := none },
    { init := some sha1Init
      update := some (sha1Update compress)
      finalize := some (sha1Finalize compress) }]

/-- `digest_init_ctx`: the value it returns, and the context.  The call of a null
function is `none`, as below. -/
def digestInitCtx (dt : Int) (ctx : DigestCtx) : Option (Int × DigestCtx) :=
  if dt ≤ digestQuery ∨ dt > digestSha1 then some (-einval, ctx)
  else do
    let init ← (← (digests compress)[dt.toNat]?).init
    return (0, { type := dt.toNat, sha1 := init ctx.sha1 })

/-- `digest_update_ctx`. -/
def digestUpdateCtx (ctx : DigestCtx) (data : List UInt8) : Option (DigestCtx × List DigestInsn) :=
  do
    let update ← (← (digests compress)[ctx.type]?).update
    let (sha1, insns) := update ctx.sha1 data
    return ({ ctx with sha1 }, insns)

/-- `digest_finalize_ctx`. -/
def digestFinalizeCtx (ctx : DigestCtx) (data : List UInt8) :
    Option (DigestCtx × List DigestInsn) := do
  let finalize ← (← (digests compress)[ctx.type]?).finalize
  let (sha1, insns) := finalize ctx.sha1 data
  return ({ ctx with sha1 }, insns)

/-- A `digest_update_ctx`, with the instructions issued so far. -/
def digestPiece (state : DigestCtx × List DigestInsn) (piece : List UInt8) :
    Option (DigestCtx × List DigestInsn) := do
  let (ctx, insns) ← digestUpdateCtx compress state.1 piece
  return (ctx, state.2 ++ insns)

/-- A message given in pieces: `digest_init_ctx`, a `digest_update_ctx` for each
of `pieces`, and `digest_finalize_ctx` with `rest`. -/
def digestStream (ctx : DigestCtx) (pieces : List (List UInt8)) (rest : List UInt8) :
    Option (DigestCtx × List DigestInsn) := do
  let (_, ctx) ← digestInitCtx compress digestSha1 ctx
  let (ctx, insns) ← pieces.foldlM (digestPiece compress) (ctx, [])
  let (ctx, insns') ← digestFinalizeCtx compress ctx rest
  return (ctx, insns ++ insns')

/-! ### What the context carries -/

/-- What a copy into the context's buffer leaves up to the end of the copy: the old bytes before
the offset, then the copied ones. -/
theorem memcpyTo_take {buf data : List UInt8} {off : ℕ} (h : off ≤ buf.length) :
    (memcpyTo buf off data).take (off + data.length) = buf.take off ++ data := by
  refine List.take_left' ?_
  rw [List.length_append, List.length_take, min_eq_left h]

variable {compress}

/-- The context after the message `whole ++ pending`, hashed from `H₀`: the whole
blocks are in the chaining value and the others in the buffer. -/
structure Carries (compress : Sha1State → List UInt8 → Sha1State) (H₀ : Sha1State)
    (whole pending : List UInt8) (ctx : DigestCtxSha1) : Prop where
  whole_dvd : 64 ∣ whole.length
  pending_lt : pending.length < 64
  buflen : ctx.buflen = pending.length
  buf : ctx.buf.take ctx.buflen = pending
  H : ctx.H = kimd compress H₀ whole
  mbl : ctx.mbl = (8 * whole.length).toUInt64

variable {H₀ : Sha1State} {whole pending data : List UInt8} {ctx : DigestCtxSha1}

/-- **KIMD composes.** Two KIMD over whole blocks are one over the blocks together. -/
theorem kimd_append {H : Sha1State} (h : 64 ∣ whole.length) (data : List UInt8) :
    kimd compress H (whole ++ data) = kimd compress (kimd compress H whole) data :=
  foldBlocks_append _ _ data (by decide) h

/-- A KLMD behind a KIMD is one KLMD over all the bytes, with the same message bit length. -/
theorem klmd_append {H : Sha1State} (h : 64 ∣ whole.length) (mbl : UInt64) (data : List UInt8) :
    klmd compress H mbl (whole ++ data) = klmd compress (kimd compress H whole) mbl data := by
  have hpad : sha1Pad (whole ++ data).length mbl = sha1Pad data.length mbl := by
    unfold sha1Pad
    rw [show (whole ++ data).length % 64 = data.length % 64 by rw [List.length_append]; omega]
  unfold klmd
  rw [hpad, List.append_assoc, foldBlocks_append _ _ _ (by decide) h]
  rfl

/-- The bit length that the context counts up call by call is that of the bytes so far, both
modulo 2⁶⁴. -/
theorem mbl_add (m n : ℕ) : (8 * m).toUInt64 + (n <<< 3).toUInt64 = (8 * (m + n)).toUInt64 := by
  rw [Nat.shiftLeft_eq, show 8 * (m + n) = 8 * m + n * 2 ^ 3 by ring]
  exact (UInt64.ofNat_add _ _).symm

/-- The data in front of the tail, and the tail. -/
theorem whole_part (data : List UInt8) :
    ∃ front back, data = front ++ back ∧ 64 ∣ front.length ∧ back.length = data.length % 64 ∧
      data.take (data.length - data.length % 64) = front ∧
      data.drop (data.length - data.length % 64) = back := by
  refine ⟨_, _, (List.take_append_drop (data.length - data.length % 64) data).symm, ?_, ?_,
    rfl, rfl⟩
  · rw [List.length_take, min_eq_left (Nat.sub_le ..)]
    exact Nat.dvd_sub_mod _
  · rw [List.length_drop]
    have := Nat.mod_le data.length 64
    omega

/-- The front of the data goes behind what is in the buffer. -/
theorem Carries.memcpyTo (h : Carries compress H₀ whole pending ctx) (front : List UInt8) :
    (Hvf.memcpyTo ctx.buf ctx.buflen front).take (ctx.buflen + front.length)
      = pending ++ front := by
  have hlen := congrArg List.length h.buf
  rw [List.length_take, ← h.buflen] at hlen
  rw [memcpyTo_take (by omega), h.buf]

/-- **The buffer is filled** and hashed. -/
theorem Carries.fill_full (h : Carries compress H₀ whole pending ctx) (data : List UInt8)
    (final : Bool) (hfull : 64 ≤ ctx.buflen + data.length) :
    ∃ front back ctx', data = front ++ back ∧ 64 ∣ (pending ++ front).length ∧
      Carries compress H₀ (whole ++ (pending ++ front)) [] ctx' ∧
      fillBuffer compress ctx data final = (ctx', back, [.kimd (pending ++ front)]) := by
  have hlt : ctx.buflen < 64 := h.buflen ▸ h.pending_lt
  have hcopy : min (64 - ctx.buflen) data.length = 64 - ctx.buflen := by omega
  have hsum : ctx.buflen + (64 - ctx.buflen) = 64 := by omega
  have hfront : (data.take (64 - ctx.buflen)).length = 64 - ctx.buflen := by
    rw [List.length_take, hcopy]
  have htake := h.memcpyTo (data.take (64 - ctx.buflen))
  rw [hfront, hsum] at htake
  have hwhole : (pending ++ data.take (64 - ctx.buflen)).length = 64 := by
    rw [List.length_append, hfront, ← h.buflen, hsum]
  refine ⟨data.take (64 - ctx.buflen), data.drop (64 - ctx.buflen),
    { H := kimd compress ctx.H (pending ++ data.take (64 - ctx.buflen))
      mbl := ctx.mbl + (64 <<< 3 : ℕ).toUInt64
      buflen := 0
      buf := Hvf.memcpyTo ctx.buf ctx.buflen (data.take (64 - ctx.buflen)) },
    (List.take_append_drop ..).symm, by rw [hwhole], ?_, ?_⟩
  · exact {
      whole_dvd := by
        rw [List.length_append, hwhole]
        exact dvd_add h.whole_dvd (dvd_refl _)
      pending_lt := by decide
      buflen := rfl
      buf := rfl
      H := by rw [h.H, kimd_append h.whole_dvd]
      mbl := by rw [h.mbl, mbl_add, List.length_append, hwhole] }
  · unfold fillBuffer
    simp only [hcopy, hsum, if_pos, htake]

/-- **The buffer takes all the data.** -/
theorem Carries.fill_part (h : Carries compress H₀ whole pending ctx) (data : List UInt8)
    (final : Bool) (hpart : ctx.buflen + data.length < 64) :
    ∃ ctx', Carries compress H₀ whole (pending ++ data) ctx' ∧
      fillBuffer compress ctx data final = (ctx', if final then pending ++ data else [], []) := by
  have hcopy : min (64 - ctx.buflen) data.length = data.length := by omega
  have htake := h.memcpyTo data
  refine ⟨{ ctx with
    buf := Hvf.memcpyTo ctx.buf ctx.buflen data, buflen := ctx.buflen + data.length }, ?_, ?_⟩
  · exact {
      whole_dvd := h.whole_dvd
      pending_lt := by rw [List.length_append, ← h.buflen]; exact hpart
      buflen := by rw [List.length_append, ← h.buflen]
      buf := htake
      H := h.H
      mbl := h.mbl }
  · unfold fillBuffer
    simp only [hcopy, List.take_length, List.drop_length, if_neg hpart.ne, htake]
    cases final with
    | false => rfl
    | true => rfl

/-- Data behind an empty buffer: its whole blocks are hashed and the tail is kept. -/
theorem Carries.hash (h : Carries compress H₀ whole [] ctx) (data : List UInt8) :
    ∃ front back ctx', data = front ++ back ∧ 64 ∣ front.length ∧
      Carries compress H₀ (whole ++ front) back ctx' ∧
      hashData compress ctx data false = (ctx', [.kimd front]) := by
  obtain ⟨front, back, hdata, hdvd, hback, htake, hdrop⟩ := whole_part data
  have hH : kimd compress ctx.H front = kimd compress H₀ (whole ++ front) := by
    rw [h.H, kimd_append h.whole_dvd]
  have hmbl : ctx.mbl + (front.length <<< 3).toUInt64 = (8 * (whole ++ front).length).toUInt64 := by
    rw [h.mbl, mbl_add, List.length_append]
  have hwhole : 64 ∣ (whole ++ front).length := by
    rw [List.length_append]
    exact dvd_add h.whole_dvd hdvd
  have hlt : back.length < 64 := hback ▸ Nat.mod_lt _ (by decide)
  by_cases htail : data.length % 64 = 0
  · rw [htail] at hback
    obtain rfl := List.eq_nil_of_length_eq_zero hback
    rw [List.append_nil] at hdata
    subst hdata
    refine ⟨data, [], { ctx with
      H := kimd compress ctx.H data, mbl := ctx.mbl + (data.length <<< 3).toUInt64 },
      (List.append_nil _).symm, hdvd, ?_, ?_⟩
    · exact ⟨hwhole, by decide, h.buflen, h.buf, hH, hmbl⟩
    · unfold hashData
      simp only [htail, ne_eq, not_true, and_false, if_false, Bool.false_eq_true]
  · have hbuf := @memcpyTo_take ctx.buf back 0 (Nat.zero_le _)
    rw [Nat.zero_add, List.take_zero, List.nil_append] at hbuf
    refine ⟨front, back,
      { H := kimd compress ctx.H front
        mbl := ctx.mbl + (front.length <<< 3).toUInt64
        buflen := data.length % 64
        buf := Hvf.memcpyTo ctx.buf 0 back }, hdata, hdvd, ?_, ?_⟩
    · exact ⟨hwhole, hlt, hback.symm, hback ▸ hbuf, hH, hmbl⟩
    · unfold hashData
      simp only [htail, ne_eq, not_false_eq_true, Bool.false_eq_true, and_self, if_true, if_false,
        htake, hdrop]

/-- Nothing is hashed where no data is left. -/
theorem hashData_nil (ctx : DigestCtxSha1) :
    hashData compress ctx [] false = (ctx, [.kimd []]) := by
  have hkimd : kimd compress ctx.H [] = ctx.H := foldBlocks_nil ..
  unfold hashData
  simp [hkimd]

/-- The last data, hashed and padded. -/
theorem Carries.hash_final (h : Carries compress H₀ whole pending ctx) (data : List UInt8) :
    ∃ ctx', hashData compress ctx data true
        = (ctx', [.klmd (8 * (whole ++ data).length).toUInt64 data]) ∧
      ctx'.H = klmd compress H₀ (8 * (whole ++ data).length).toUInt64 (whole ++ data) := by
  have hmbl : ctx.mbl + (data.length <<< 3).toUInt64 = (8 * (whole ++ data).length).toUInt64 := by
    rw [h.mbl, mbl_add, List.length_append]
  refine ⟨{ ctx with
    H := klmd compress ctx.H (8 * (whole ++ data).length).toUInt64 data
    mbl := (8 * (whole ++ data).length).toUInt64 }, ?_, ?_⟩
  · unfold hashData
    simp only [not_true, false_and, if_false, if_true, hmbl]
  · rw [klmd_append h.whole_dvd, ← h.H]

/-- All these are `KIMD`s of whole blocks. -/
def WholeBlocks (insns : List DigestInsn) : Prop :=
  ∃ ks : List (List UInt8), insns = ks.map .kimd ∧ ∀ k ∈ ks, 64 ∣ k.length

/-- No instruction at all feeds no partial block. -/
theorem WholeBlocks.nil : WholeBlocks [] := ⟨[], rfl, nofun⟩

/-- One KIMD of whole blocks is such a list. -/
theorem WholeBlocks.single (h : 64 ∣ data.length) : WholeBlocks [.kimd data] :=
  ⟨[data], rfl, by simpa using h⟩

/-- Two lists of KIMD over whole blocks are one. -/
theorem WholeBlocks.append {insns insns' : List DigestInsn} (h : WholeBlocks insns)
    (h' : WholeBlocks insns') : WholeBlocks (insns ++ insns') := by
  obtain ⟨ks, rfl, hks⟩ := h
  obtain ⟨ks', rfl, hks'⟩ := h'
  refine ⟨ks ++ ks', List.map_append.symm, fun k hk => ?_⟩
  rcases List.mem_append.1 hk with hk | hk
  · exact hks k hk
  · exact hks' k hk

/-- **One call of `digest_update_ctx`.** -/
theorem Carries.update (h : Carries compress H₀ whole pending ctx) (data : List UInt8) :
    ∃ whole' pending', whole' ++ pending' = whole ++ pending ++ data ∧
      Carries compress H₀ whole' pending' (sha1Update compress ctx data).1 ∧
      WholeBlocks (sha1Update compress ctx data).2 := by
  unfold sha1Update _sha1Update
  by_cases hempty : ctx.buflen = 0
  · obtain rfl : pending = [] := List.eq_nil_of_length_eq_zero (h.buflen ▸ hempty)
    obtain ⟨front, back, ctx', rfl, hdvd, hcarries, hhash⟩ := h.hash data
    simp only [hempty, ne_eq, not_true, if_false, hhash]
    exact ⟨_, _, by simp, hcarries, .single hdvd⟩
  · simp only [ne_eq, hempty, not_false_eq_true, if_true]
    by_cases hfull : 64 ≤ ctx.buflen + data.length
    · obtain ⟨front, data, ctx', rfl, hdvd, hcarries, hfill⟩ := h.fill_full data false hfull
      obtain ⟨front', back, ctx'', rfl, hdvd', hcarries', hhash⟩ := hcarries.hash data
      simp only [hfill, hhash]
      exact ⟨_, _, by simp, hcarries', (WholeBlocks.single hdvd).append (.single hdvd')⟩
    · obtain ⟨ctx', hcarries, hfill⟩ := h.fill_part data false (by omega)
      simp only [hfill, Bool.false_eq_true, if_false, hashData_nil]
      exact ⟨_, _, by simp, hcarries, .single (dvd_zero 64)⟩

/-- **The call of `digest_finalize_ctx`.** -/
theorem Carries.finalize (h : Carries compress H₀ whole pending ctx) (data : List UInt8) :
    ∃ ctx' insns last mbl, sha1Finalize compress ctx data = (ctx', insns ++ [.klmd mbl last]) ∧
      mbl = (8 * (whole ++ pending ++ data).length).toUInt64 ∧
      ctx'.H = klmd compress H₀ mbl (whole ++ pending ++ data) ∧ WholeBlocks insns := by
  unfold sha1Finalize _sha1Update
  by_cases hempty : ctx.buflen = 0
  · obtain rfl : pending = [] := List.eq_nil_of_length_eq_zero (h.buflen ▸ hempty)
    obtain ⟨ctx', hhash, hH⟩ := h.hash_final data
    simp only [hempty, ne_eq, not_true, if_false, hhash, List.append_nil]
    exact ⟨_, _, _, _, rfl, rfl, hH, .nil⟩
  · simp only [ne_eq, hempty, not_false_eq_true, if_true]
    by_cases hfull : 64 ≤ ctx.buflen + data.length
    · obtain ⟨front, data, ctx', rfl, hdvd, hcarries, hfill⟩ := h.fill_full data true hfull
      obtain ⟨ctx'', hhash, hH⟩ := hcarries.hash_final data
      have happend : whole ++ (pending ++ front) ++ data = whole ++ pending ++ (front ++ data) := by
        simp only [List.append_assoc]
      rw [happend] at hH hhash
      simp only [hfill, hhash]
      exact ⟨_, _, _, _, rfl, rfl, hH, .single hdvd⟩
    · obtain ⟨ctx', hcarries, hfill⟩ := h.fill_part data true (by omega)
      obtain ⟨ctx'', hhash, hH⟩ := hcarries.hash_final (pending ++ data)
      rw [← List.append_assoc] at hH hhash
      simp only [hfill, if_true, hhash]
      exact ⟨_, _, _, _, rfl, rfl, hH, .nil⟩

/-! ### Messages in pieces -/

/-- The chaining value `sha1_init` leaves. -/
def sha1H : Sha1State := [0x67452301, 0xEFCDAB89, 0x98BADCFE, 0x10325476, 0xC3D2E1F0]

/-- A fresh context carries the empty message: no instruction executed, no byte buffered. -/
theorem Carries.init (ctx : DigestCtxSha1) : Carries compress sha1H [] [] (sha1Init ctx) :=
  ⟨dvd_zero 64, by decide, rfl, rfl, (foldBlocks_nil ..).symm, rfl⟩

/-- The calls of `digest_update_ctx`, by induction on the pieces. -/
theorem digestUpdateCtx_pieces (pieces : List (List UInt8)) {message : List UInt8}
    (h : Carries compress H₀ whole pending ctx) (hmessage : whole ++ pending = message)
    {insns : List DigestInsn} (hinsns : WholeBlocks insns) :
    ∃ whole' pending' ctx' insns', whole' ++ pending' = message ++ pieces.flatten ∧
      Carries compress H₀ whole' pending' ctx' ∧ WholeBlocks insns' ∧
      pieces.foldlM (digestPiece compress) (⟨digestSha1, ctx⟩, insns)
        = some (⟨digestSha1, ctx'⟩, insns') := by
  induction pieces generalizing whole pending ctx insns message with
  | nil => exact ⟨whole, pending, ctx, insns, by simpa using hmessage, h, hinsns, rfl⟩
  | cons piece pieces ih =>
    obtain ⟨whole', pending', happend, hcarries, hwhole⟩ := h.update piece
    rw [hmessage] at happend
    obtain ⟨whole'', pending'', ctx', insns', happend', hcarries', hinsns', hrest⟩ :=
      ih hcarries happend (hinsns.append hwhole)
    refine ⟨whole'', pending'', ctx', insns', ?_, hcarries', hinsns', ?_⟩
    · rw [happend', List.flatten_cons, List.append_assoc]
    · rw [List.foldlM_cons]
      exact hrest

/-- The digest of a message given in pieces. -/
theorem digestStream_eq (compress : Sha1State → List UInt8 → Sha1State) (ctx : DigestCtx)
    (pieces : List (List UInt8)) (rest : List UInt8) :
    ∃ ctx' insns last mbl, digestStream compress ctx pieces rest
        = some (ctx', insns ++ [.klmd mbl last]) ∧
      mbl = (8 * (pieces.flatten ++ rest).length).toUInt64 ∧
      ctx'.sha1.H = klmd compress sha1H mbl (pieces.flatten ++ rest) ∧ WholeBlocks insns := by
  obtain ⟨whole, pending, ctx₁, insns, hmessage, hcarries, hwhole, hpieces⟩ :=
    digestUpdateCtx_pieces pieces (@Carries.init compress ctx.sha1) rfl .nil
  obtain ⟨ctx', insns', last, mbl, hfinal, hmbl, hH, hwhole'⟩ := hcarries.finalize rest
  rw [hmessage] at hmbl hH
  refine ⟨⟨digestSha1, ctx'⟩, insns ++ insns', last, mbl, ?_, hmbl, hH, hwhole.append hwhole'⟩
  have hcall : digestFinalizeCtx compress ⟨digestSha1, ctx₁⟩ rest
      = some (⟨digestSha1, ctx'⟩, insns' ++ [.klmd mbl last]) := by
    show some ((⟨digestSha1, (sha1Finalize compress ctx₁ rest).1⟩ : DigestCtx),
      (sha1Finalize compress ctx₁ rest).2) = _
    rw [hfinal]
  show (pieces.foldlM (digestPiece compress) (⟨digestSha1, sha1Init ctx.sha1⟩, [])).bind
    (fun s => (digestFinalizeCtx compress s.1 rest).bind fun r => some (r.1, s.2 ++ r.2)) = _
  rw [hpieces, Option.bind_some, hcall, Option.bind_some, List.append_assoc]

/-- **The digest does not depend on how the message is cut.**  However a message
is given to `digest_update_ctx` and `digest_finalize_ctx`, whatever was in the
context before `digest_init_ctx`, the chaining value is that of one
`digest_finalize_ctx` of all of it; `KLMD` is issued once, last, with eight times
the length in `mbl`; and every `KIMD` gets whole blocks. -/
theorem digest_stream (compress : Sha1State → List UInt8 → Sha1State) (ctx ctx₁ : DigestCtx)
    (pieces : List (List UInt8)) (rest : List UInt8) :
    ∃ final final₁ insns insns₁ last mbl,
      digestStream compress ctx pieces rest = some (final, insns ++ [.klmd mbl last]) ∧
      digestStream compress ctx₁ [] (pieces.flatten ++ rest) = some (final₁, insns₁) ∧
      final.sha1.H = final₁.sha1.H ∧
      mbl.toNat = 8 * (pieces.flatten ++ rest).length % 2 ^ 64 ∧
      ∀ insn ∈ insns, ∃ data, insn = .kimd data ∧ 64 ∣ data.length := by
  obtain ⟨final, insns, last, mbl, hrun, hmbl, hH, ks, rfl, hks⟩ :=
    digestStream_eq compress ctx pieces rest
  obtain ⟨final₁, insns₁, last₁, mbl₁, hrun₁, hmbl₁, hH₁, -⟩ :=
    digestStream_eq compress ctx₁ [] (pieces.flatten ++ rest)
  rw [List.flatten_nil, List.nil_append] at hmbl₁ hH₁
  refine ⟨final, final₁, ks.map .kimd, _, last, mbl, hrun, hrun₁, ?_, ?_, ?_⟩
  · rw [hH, hH₁, hmbl, hmbl₁]
  · rw [hmbl]
    exact UInt64.toNat_ofNat'
  · intro insn hinsn
    obtain ⟨k, hk, rfl⟩ := List.mem_map.1 hinsn
    exact ⟨k, rfl, hks k hk⟩

end Digest

end Hvf
