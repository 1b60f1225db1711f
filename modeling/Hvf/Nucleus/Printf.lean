/-
# Formatted output

`sclp_msg` in `nucleus/sclp.c` and `vprintf` in `nucleus/printf.c`, over
`lib/vsprintf.c` as it is documented: `vsnprintf` stores as much of its output as fits, with
a NUL behind it, and returns the length of the whole.  The output itself is a parameter.

A buffer is the storage from its first byte on, so that what is behind it is seen too.
`__translate` ends at a NUL, hence inside the buffer (`translated_le`); the lengths in the
SCCB are those of the whole output.
-/

import Hvf.Clock

namespace Hvf

/-- An `int`. -/
def int32 (n : ℕ) : Int := Int.bmod n (2 ^ 32)

/-- `vsnprintf` for the output `out`: the storage from the buffer `buf` on when it was
called for `buf + start`, and what it returns. -/
def vsnprintf (buf : ℕ → UInt8) (start : ℕ) (size : Int) (out : List UInt8) :
    (ℕ → UInt8) × Int :=
  if size < 0 then (buf, 0)
  else if size = 0 then (buf, int32 out.length)
  else
    let n := min (size.toNat - 1) out.length
    (fun i =>
      if start ≤ i ∧ i < start + n then out.getD (i - start) 0
      else if i = start + n then 0 else buf i, int32 out.length)

/-- How many bytes `__translate` changes: `TRE` ends at the test byte 0.  The length is
in a 64-bit register. -/
def translated (buf : ℕ → UInt8) (len : Int) : ℕ :=
  let n := (BitVec.ofInt 64 len).toNat
  ((List.range n).find? fun i => buf i = 0).getD n

/-- `__translate`. -/
def translateBuf (table : UInt8 → UInt8) (buf : ℕ → UInt8) (len : Int) : ℕ → UInt8 := fun i =>
  if i < translated buf len then table (buf i) else buf i

/-! ### `sclp_msg` -/

/-- A `u16`. -/
def word16 (n : Int) : ℕ := (n % 2 ^ 16).toNat

/-- **What `sclp_msg` puts into a `struct sccb`**, with the lengths of its nested headers;
the rest of the block is 0. -/
structure Sccb where
  hdrLen : ℕ
  hdrFlags : ℕ
  evdLen : ℕ
  evdType : ℕ
  mcdLen : ℕ
  mcdType : ℕ
  mcdTag : ℕ
  mcdCode : ℕ
  objLen : ℕ
  objType : ℕ
  txt : ℕ → UInt8

/-- Where the headers are in a `struct sccb`, and what they cover from there on. -/
def Sccb.covers (sccb : Sccb) : List (ℕ × ℕ) :=
  [(0, sccb.hdrLen), (8, sccb.evdLen), (14, sccb.mcdLen), (26, sccb.objLen)]

/-- `sizeof(struct sccb)`: 36 bytes of headers and 256 of text, aligned to 8. -/
def sizeofSccb : ℕ := 296

/-- `sclp_msg`, with `mem` from `sccb.txt` on: the SCCB and the number of bytes that
were translated. -/
def sclpMsg (table : UInt8 → UInt8) (mem : ℕ → UInt8) (out : List UInt8) : Option (Sccb × ℕ) :=
  let txt : ℕ → UInt8 := fun i => if i < 260 then 0 else mem i
  let (txt, ret) := vsnprintf txt 0 256 out
  if ret = 0 then none
  else
    let objLen := word16 (ret + 6 + 4)
    let mcdLen := word16 (objLen + 12)
    let evdLen := word16 (mcdLen + 6)
    let hdrLen := word16 (evdLen + 8)
    some ({ hdrLen, hdrFlags := 0x80, evdLen, evdType := 0x09, mcdLen, mcdType := 0x0001,
            mcdTag := 0xd4c4c240, mcdCode := 0x00000001, objLen, objType := 0x0004,
            txt := translateBuf table txt ret }, translated txt ret)

/-! ### `vprintf` -/

/-- `%02d`. -/
def twoDigits (n : ℕ) : List UInt8 :=
  let ds := (Nat.toDigits 10 n).map fun c => UInt8.ofNat c.toNat
  List.replicate (2 - ds.length) 0x30 ++ ds

/-- `"%02d:%02d:%02d "`. -/
def timeStamp (dt : Datetime) : List UInt8 :=
  twoDigits dt.th ++ [0x3a] ++ twoDigits dt.tm ++ [0x3a] ++ twoDigits dt.ts ++ [0x20]

/-- `get_parsed_tod`, of a structure that is 0: it stays 0 if the clock cannot be read. -/
def getParsedTod (tod : Option UInt64) : Datetime :=
  (tod.bind (parseTod 200)).getD ⟨0, 0, 0, 0, 0, 0, 0⟩

/-- What `vprintf` does: the places and sizes it has `vsnprintf` called with, its buffer
then, the number of bytes that were translated and what it returns. -/
structure Printed where
  calls : List (ℕ × Int)
  buf : ℕ → UInt8
  translated : ℕ
  ret : Int

/-- `vprintf` behind the time stamp, of length `off`. -/
def vprintfFrom (table : UInt8 → UInt8) (calls : List (ℕ × Int)) (buf : ℕ → UInt8) (off : Int)
    (out : List UInt8) : Printed :=
  let (buf, ret) := vsnprintf buf off.toNat (128 - off) out
  let calls := calls ++ [(off.toNat, 128 - off)]
  if ret = 0 then ⟨calls, buf, 0, ret⟩
  else ⟨calls, translateBuf table buf (off + ret), translated buf (off + ret), ret⟩

/-- `vprintf`, with `mem` from `buf` on; `tod` is what the clock has. -/
def vprintf (table : UInt8 → UInt8) (printTs : Bool) (tod : Option UInt64) (mem : ℕ → UInt8)
    (out : List UInt8) : Printed :=
  if printTs then
    let (buf, off) := vsnprintf mem 0 128 (timeStamp (getParsedTod tod))
    vprintfFrom table [(0, 128)] buf off out
  else vprintfFrom table [] mem 0 out

/-! ### Staying inside -/

/-- What is found first is not behind one that is there. -/
theorem find_range_le {p : ℕ → Bool} {k : ℕ} (h : p k = true) (n : ℕ) :
    ((List.range n).find? p).getD n ≤ k := by
  cases hfind : (List.range n).find? p with
  | none =>
    have hall := List.find?_eq_none.1 hfind
    by_contra hlt
    exact hall k (List.mem_range.2 (by simpa using hlt)) h
  | some i =>
    obtain ⟨-, -, hfirst⟩ := List.find?_range_eq_some.1 hfind
    by_contra hlt
    exact absurd h (by simpa using hfirst k (by simpa using hlt))

/-- The translation ends at the first NUL. -/
theorem translated_le {buf : ℕ → UInt8} {k : ℕ} (h : buf k = 0) (len : Int) :
    translated buf len ≤ k :=
  find_range_le (p := fun i => decide (buf i = 0)) (decide_eq_true h) _

/-- Behind the NUL nothing is translated. -/
theorem translateBuf_of_le {table : UInt8 → UInt8} {buf : ℕ → UInt8} {k i : ℕ} (h : buf k = 0)
    (len : Int) (hi : k ≤ i) : translateBuf table buf len i = buf i :=
  if_neg (not_lt.2 ((translated_le h len).trans hi))

/-- **`vsnprintf` ends its output inside the buffer** and leaves what is behind. -/
theorem vsnprintf_spec (buf : ℕ → UInt8) (start : ℕ) {size : Int} (hsize : 0 < size)
    (out : List UInt8) :
    (vsnprintf buf start size out).2 = int32 out.length ∧
      (∃ k, k < start + size.toNat ∧ (vsnprintf buf start size out).1 k = 0) ∧
      ∀ i, start + size.toNat ≤ i → (vsnprintf buf start size out).1 i = buf i := by
  have hlt : min (size.toNat - 1) out.length < size.toNat := by omega
  rw [vsnprintf, if_neg (by omega), if_neg (by omega)]
  dsimp only
  refine ⟨?_, ⟨start + min (size.toNat - 1) out.length, by omega, ?_⟩, fun i hi => ?_⟩
  · trivial
  · rw [if_neg (by omega), if_pos rfl]
  · rw [if_neg (by omega), if_neg (by omega)]

/-- What `sclp_msg` translates is in the text, and its headers do not cover more than the
SCCB. -/
def SclpSafe (mem : ℕ → UInt8) (r : Option (Sccb × ℕ)) : Prop :=
  ∀ sccb count, r = some (sccb, count) →
    count ≤ 256 ∧ (∀ i, 260 ≤ i → sccb.txt i = mem i) ∧
      ∀ c ∈ sccb.covers, c.1 + c.2 ≤ sizeofSccb

/-- What `vprintf` translates is in its buffer, and so is what it has formatted. -/
def VprintfSafe (mem : ℕ → UInt8) (p : Printed) : Prop :=
  p.translated ≤ 128 ∧ (∀ i, 128 ≤ i → p.buf i = mem i) ∧
    ∀ c ∈ p.calls, 0 ≤ c.2 ∧ c.1 + c.2 ≤ 128

/-! ### `vprintf` -/

/-- A number below 100 is two digits. -/
theorem length_twoDigits {n : ℕ} (h : n < 100) : (twoDigits n).length = 2 := by
  have hall : ∀ n < 100, (twoDigits n).length = 2 := by decide +kernel
  exact hall n h

/-- The time of day has two digits for the hour, the minute and the second. -/
theorem length_timeStamp (tod : Option UInt64) :
    (timeStamp (getParsedTod tod)).length = 9 := by
  have htime : (getParsedTod tod).th < 100 ∧ (getParsedTod tod).tm < 100 ∧
      (getParsedTod tod).ts < 100 := by
    cases tod with
    | none => exact ⟨by decide, by decide, by decide⟩
    | some tod =>
      obtain ⟨dt, hreading, -, hparse⟩ := parseTod_reading tod
      have hdt : getParsedTod (some tod) = dt := by
        rw [getParsedTod, Option.bind_some, hparse 200 le_rfl, Option.getD_some]
      have hhour := hreading.hour
      have hminute := hreading.minute
      have hsecond := hreading.second
      rw [hdt]
      omega
  simp only [timeStamp, List.length_append, length_twoDigits htime.1, length_twoDigits htime.2.1,
    length_twoDigits htime.2.2, List.length_cons, List.length_nil]

/-- **The message's text keeps to its buffer**, if the time stamp leaves room and the console's
writes keep to theirs. -/
theorem vprintfFrom_safe (table : UInt8 → UInt8) {calls : List (ℕ × Int)} {buf mem : ℕ → UInt8}
    {off : Int} (hoff : 0 ≤ off) (hlt : off < 128) (hbuf : ∀ i, 128 ≤ i → buf i = mem i)
    (hcalls : ∀ c ∈ calls, 0 ≤ c.2 ∧ c.1 + c.2 ≤ 128) (out : List UInt8) :
    VprintfSafe mem (vprintfFrom table calls buf off out) := by
  obtain ⟨-, ⟨k, hk, hzero⟩, hrest⟩ :=
    vsnprintf_spec buf off.toNat (by omega : 0 < 128 - off) out
  have hcalls' : ∀ c ∈ calls ++ [(off.toNat, 128 - off)], 0 ≤ c.2 ∧ c.1 + c.2 ≤ 128 := by
    intro c hc
    obtain hc | hc := List.mem_append.1 hc
    · exact hcalls c hc
    · rw [List.mem_singleton.1 hc]
      dsimp only
      omega
  have hframe (i : ℕ) (hi : 128 ≤ i) : (vsnprintf buf off.toNat (128 - off) out).1 i = mem i := by
    rw [hrest i (by omega), hbuf i hi]
  unfold vprintfFrom
  generalize vsnprintf buf off.toNat (128 - off) out = printed at hzero hframe
  dsimp only
  split_ifs with hret
  · exact ⟨Nat.zero_le _, hframe, hcalls'⟩
  · refine ⟨(translated_le hzero _).trans (by omega), fun i hi => ?_, hcalls'⟩
    exact (translateBuf_of_le hzero _ (by omega)).trans (hframe i hi)

/-- **`vprintf` stays inside its buffer**, whatever is printed. -/
theorem vprintf_safe (table : UInt8 → UInt8) (printTs : Bool) (tod : Option UInt64)
    (mem : ℕ → UInt8) (out : List UInt8) :
    VprintfSafe mem (vprintf table printTs tod mem out) := by
  cases printTs
  · unfold vprintf
    rw [if_neg Bool.false_ne_true]
    exact vprintfFrom_safe table le_rfl (by decide) (fun _ _ => rfl) (by simp) out
  · obtain ⟨hlen, -, hrest⟩ := vsnprintf_spec mem 0 (by decide : (0 : Int) < 128)
      (timeStamp (getParsedTod tod))
    rw [length_timeStamp, show int32 9 = 9 from rfl] at hlen
    unfold vprintf
    generalize vsnprintf mem 0 128 (timeStamp (getParsedTod tod)) = stamped at hlen hrest
    dsimp only
    rw [if_pos rfl, hlen]
    exact vprintfFrom_safe table (by decide) (by decide) (fun i hi => hrest i (by omega))
      (by decide) out

/-! ### `sclp_msg` -/

/-- What it takes for a message handed on to be safe. -/
theorem sclpSafe_some {mem : ℕ → UInt8} {sccb : Sccb} {count : ℕ} :
    SclpSafe mem (some (sccb, count)) ↔ count ≤ 256 ∧ (∀ i, 260 ≤ i → sccb.txt i = mem i) ∧
      ∀ c ∈ sccb.covers, c.1 + c.2 ≤ sizeofSccb := by
  constructor
  · intro h
    exact h sccb count rfl
  · intro h sccb' count' heq
    cases heq
    exact h

/-- A 32-bit number modulo 2¹⁶. -/
theorem int32_emod (n : ℕ) : int32 n % 2 ^ 16 = (n % 2 ^ 16 : ℕ) := by
  have hdvd : (2 ^ 16 : Int) ∣ (2 ^ 32 : ℕ) := ⟨2 ^ 16, by norm_num⟩
  have hmod : int32 n % (2 ^ 32 : ℕ) = n % (2 ^ 32 : ℕ) := Int.bmod_emod
  have hn := Int.emod_emod_of_dvd n hdvd
  rw [← Int.emod_emod_of_dvd (int32 n) hdvd, hmod, hn, Int.natCast_emod, Nat.cast_pow,
    Nat.cast_ofNat]

/-- A sum stored in 16 bits. -/
theorem word16_add (n k : ℕ) : word16 (n + k) = (n + k) % 2 ^ 16 := by
  unfold word16
  omega

/-- The length of the object, of the low half of the length of the output. -/
theorem word16_int32 (n : ℕ) : word16 (int32 n + 6 + 4) = (n % 2 ^ 16 + 10) % 2 ^ 16 := by
  have hmod := int32_emod n
  unfold word16
  omega

/-- The lengths that are no more than the SCCB: each header adds its own to that of the
output. -/
theorem covers_iff {n obj mcd evd hdr : ℕ} (hn : n < 2 ^ 16) (hobj : obj = (n + 10) % 2 ^ 16)
    (hmcd : mcd = (obj + 12) % 2 ^ 16) (hevd : evd = (mcd + 6) % 2 ^ 16)
    (hhdr : hdr = (evd + 8) % 2 ^ 16) :
    (hdr ≤ 296 ∧ 8 + evd ≤ 296 ∧ 14 + mcd ≤ 296 ∧ 26 + obj ≤ 296) ↔ n ≤ 260 ∨ 65526 ≤ n := by
  omega

/-- **`sclp_msg` is safe exactly when** the output has at most 260 characters, modulo `2 ^ 16`,
or at least 65526: only its lengths can go wrong. -/
theorem sclpMsg_safe_iff (table : UInt8 → UInt8) (mem : ℕ → UInt8) (out : List UInt8) :
    SclpSafe mem (sclpMsg table mem out) ↔
      out.length % 2 ^ 16 ≤ 260 ∨ 65526 ≤ out.length % 2 ^ 16 := by
  obtain ⟨hret, ⟨k, hk, hzero⟩, hrest⟩ :=
    vsnprintf_spec (fun i => if i < 260 then 0 else mem i) 0 (by decide : (0 : Int) < 256) out
  unfold sclpMsg
  dsimp only
  generalize vsnprintf (fun i => if i < 260 then 0 else mem i) 0 256 out = printed
    at hret hzero hrest
  obtain ⟨txt, ret⟩ := printed
  dsimp only at hret hzero hrest ⊢
  have hcount : translated txt ret ≤ 256 := (translated_le hzero _).trans (by omega)
  have hframe (i : ℕ) (hi : 260 ≤ i) : translateBuf table txt ret i = mem i := by
    rw [translateBuf_of_le hzero _ (by omega), hrest i (by omega), if_neg (by omega)]
  by_cases hempty : ret = 0
  · rw [if_pos hempty]
    refine iff_of_true (by intro sccb count h; cases h) (Or.inl ?_)
    have hmod := int32_emod out.length
    rw [← hret, hempty] at hmod
    omega
  · rw [if_neg hempty, hret, word16_int32]
    rw [hret] at hcount hframe
    have hcovers := covers_iff (Nat.mod_lt out.length (by decide)) rfl (word16_add _ 12)
      (word16_add _ 6) (word16_add _ 8)
    rw [sclpSafe_some, and_iff_right hcount, and_iff_right hframe, ← hcovers]
    simp only [Sccb.covers, List.forall_mem_cons, Nat.zero_add, sizeofSccb]
    exact and_congr_right' (and_congr_right' (and_congr_right' (and_iff_left (by simp))))

/-- **Formatted output stays inside exactly when** the lengths in the SCCB do; `vprintf`
stays inside whatever is printed. `sclp_msg` takes the length that `vsnprintf` returns,
which is that of the whole text, for the one stored. -/
theorem printf_safe_iff (table : UInt8 → UInt8) (mem mem' : ℕ → UInt8) (printTs : Bool)
    (tod : Option UInt64) (out out' : List UInt8) :
    SclpSafe mem (sclpMsg table mem out) ∧
        VprintfSafe mem' (vprintf table printTs tod mem' out') ↔
      out.length % 2 ^ 16 ≤ 260 ∨ 65526 ≤ out.length % 2 ^ 16 := by
  rw [sclpMsg_safe_iff]
  exact and_iff_left (vprintf_safe table printTs tod mem' out')

/-- A message of 261 characters: the SCCB says that it has more than it can hold. -/
theorem not_sclpMsg_safe :
    ¬ ∀ (table : UInt8 → UInt8) (mem mem' : ℕ → UInt8) (printTs : Bool) (tod : Option UInt64)
      (out out' : List UInt8), SclpSafe mem (sclpMsg table mem out) ∧
        VprintfSafe mem' (vprintf table printTs tod mem' out') := by
  intro h
  have hsafe := (sclpMsg_safe_iff _ _ _).1
    (h id (fun _ => 0) (fun _ => 0) false none (List.replicate 261 0x41) []).1
  rw [List.length_replicate] at hsafe
  omega

end Hvf
