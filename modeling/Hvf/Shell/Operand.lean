/-
# Numbers in command operands

`shell/cmd_helpers.c`, and `parse_addrspec` in `shell/cmd_display.c`.  An operand is
the string from the pointer on, up to its NUL; the pointer that a function returns
is the string from there on.

The scanners take digits up to a blank, a tab or the end of the string, and build their
number in 64 bits (`extract_eq_ok_iff`, `parseAddrspec_eq_ok_iff`).
-/

import Mathlib.Data.Nat.Digits.Defs
import Mathlib.Tactic
import Hvf.Errno

namespace Hvf

/-- `' '` and `'\t'`. -/
def isWs (c : UInt8) : Bool := c = 0x20 ∨ c = 0x09

/-- The digits that `__extract_dec` takes. -/
def decValue (c : UInt8) : Option UInt64 :=
  if 0x30 ≤ c ∧ c ≤ 0x39 then some (c - 0x30).toUInt64 else none

/-- The digits that `__extract_hex` takes. -/
def hexValue (c : UInt8) : Option UInt64 :=
  if 0x30 ≤ c ∧ c ≤ 0x39 then some (c - 0x30).toUInt64
  else if 0x41 ≤ c ∧ c ≤ 0x46 then some (c - 0x41 + 10).toUInt64
  else if 0x61 ≤ c ∧ c ≤ 0x66 then some (c - 0x61 + 10).toUInt64
  else none

/-- The digits that `parse_addrspec` takes. -/
def addrValue (c : UInt8) : Option UInt64 :=
  if 0x30 ≤ c ∧ c ≤ 0x39 then some (c - 0x30).toUInt64
  else if (0x41 ≤ c ∧ c ≤ 0x46) ∨ (0x61 ≤ c ∧ c ≤ 0x66) then
    some (10 + ((c &&& ~~~0x20) - 0x41)).toUInt64
  else none

/-- The loop of the scanners: the count of digits, the number and the pointer where a character
stops it, and none where it is wrong. -/
def scanDigits (digit : UInt8 → Option UInt64) (push : UInt64 → UInt64 → UInt64)
    (stops : ℕ → UInt8 → Bool) (len : ℕ) (res : UInt64) :
    List UInt8 → Option (ℕ × UInt64 × List UInt8)
  | [] => some (len, res, [])
  | c :: str =>
    match digit c with
    | some tmp => scanDigits digit push stops (len + 1) (push res tmp) str
    | none => if stops len c then some (len, res, c :: str) else none

/-- What `__extract_dec` and `__extract_hex` share: the pointer and what `*val` is. -/
def extract (digit : UInt8 → Option UInt64) (push : UInt64 → UInt64 → UInt64)
    (str : Option (List UInt8)) : Except Int (List UInt8 × UInt64) :=
  match str with
  | none => .error (-einval)
  | some str =>
    match scanDigits digit push (fun _ => isWs) 0 0 str with
    | none => .error (-einval)
    | some (len, res, str) => if len = 0 then .error (-einval) else .ok (str, res)

/-- `__extract_dec`. -/
def extractDecPtr : Option (List UInt8) → Except Int (List UInt8 × UInt64) :=
  extract decValue fun res tmp => res * 10 + tmp

/-- `__extract_hex`. -/
def extractHexPtr : Option (List UInt8) → Except Int (List UInt8 × UInt64) :=
  extract hexValue fun res tmp => (res <<< 4) ||| tmp

/-- `__consume_ws`. -/
def consumeWs : Option (List UInt8) → Option (List UInt8) := Option.map (List.dropWhile isWs)

/-- `parse_addrspec`: the pointer, `*val` and `*len`, where `wanted` says that `len` is
not `NULL`. -/
def parseAddrspec (wanted : Bool) (s : List UInt8) :
    Except Int (List UInt8 × UInt64 × UInt64) :=
  match scanDigits addrValue (fun tmp d => 16 * tmp + d)
      (fun parsed c => isWs c || (c == 0x2e && parsed != 0)) 0 0 s with
  | none => .error (-einval)
  | some (parsed, tmp, s) =>
    if wanted ∧ s.head? = some 0x2e then
      match extractHexPtr (some s.tail) with
      | .error _ => .error (-einval)
      | .ok (s, len) => if parsed = 0 then .error (-einval) else .ok (s, tmp, len)
    else if parsed = 0 then .error (-einval) else .ok (s, tmp, 0)

/-! ### Numbers -/

/-- The value of a digit, and 16 where `c` is none. -/
def digitVal (c : UInt8) : ℕ :=
  if 48 ≤ c.toNat ∧ c.toNat ≤ 57 then c.toNat - 48
  else if 65 ≤ c.toNat ∧ c.toNat ≤ 70 then c.toNat - 55
  else if 97 ≤ c.toNat ∧ c.toNat ≤ 102 then c.toNat - 87
  else 16

/-- The number of a run of digits, the first one being the most significant. -/
def numeral (base : ℕ) (run : List UInt8) : ℕ := Nat.ofDigits base (run.map digitVal).reverse

/-- `s` is a run of digits, that of the number `n`, and `rest`. -/
def DigitRun (base : ℕ) (s rest : List UInt8) (n : ℕ) : Prop :=
  ∃ run, s = run ++ rest ∧ run ≠ [] ∧ (∀ c ∈ run, digitVal c < base) ∧ n = numeral base run

/-- `s` is the number `n`, up to a blank, a tab or its end. -/
def ReadsNumber (base : ℕ) (s rest : List UInt8) (n : ℕ) : Prop :=
  DigitRun base s rest n ∧ ∀ c ∈ rest.head?, isWs c = true

/-- `s` is an address, with a length behind a period if one is wanted. -/
def ReadsAddrspec (wanted : Bool) (s rest : List UInt8) (val len : ℕ) : Prop :=
  (ReadsNumber 16 s rest val ∧ len = 0) ∨
    (wanted = true ∧ ∃ t, DigitRun 16 s (0x2e :: t) val ∧ ReadsNumber 16 t rest len)

/-- The first digit of a number is the highest. -/
theorem numeral_cons (base : ℕ) (c : UInt8) (run : List UInt8) :
    numeral base (c :: run) = numeral base run + base ^ run.length * digitVal c := by
  rw [numeral, List.map_cons, List.reverse_cons, Nat.ofDigits_append, Nat.ofDigits_singleton,
    List.length_reverse, List.length_map, numeral]

/-- What holds of the 256 bytes holds of every byte. -/
theorem forall_byte {p : UInt8 → Prop} (h : ∀ n : Fin 256, p (UInt8.ofNat n)) (c : UInt8) :
    p c := by
  have hc := h ⟨c.toNat, c.toNat_lt⟩
  rwa [UInt8.ofNat_toNat] at hc

/-- The decimal digits and their values. -/
theorem decValue_eq (c : UInt8) :
    decValue c = if digitVal c < 10 then some (UInt64.ofNat (digitVal c)) else none := by
  revert c
  exact forall_byte (by decide +kernel)

/-- The hexadecimal digits and their values. -/
theorem hexValue_eq (c : UInt8) :
    hexValue c = if digitVal c < 16 then some (UInt64.ofNat (digitVal c)) else none := by
  revert c
  exact forall_byte (by decide +kernel)

/-- The digits of an address are the hexadecimal ones. -/
theorem addrValue_eq (c : UInt8) : addrValue c = hexValue c := by
  revert c
  exact forall_byte (by decide +kernel)

/-- A blank or a tab is no digit. -/
theorem digitVal_of_isWs {c : UInt8} (h : isWs c = true) : digitVal c = 16 := by
  revert h
  exact forall_byte (p := fun c => isWs c = true → digitVal c = 16) (by decide +kernel) c

section Scan

variable {base : ℕ} {digit : UInt8 → Option UInt64} {push : UInt64 → UInt64 → UInt64}
  {stops : ℕ → UInt8 → Bool} {s rest : List UInt8} {v : UInt64} {n : ℕ}

/-- The scan ends behind the digits, with their number modulo `2 ^ 64`. -/
theorem scanDigits_eq_some_iff
    (hdigit : ∀ c, digit c =
      if digitVal c < base then some (UInt64.ofNat (digitVal c)) else none)
    (hpush : ∀ r d, d < base →
      (push r (UInt64.ofNat d)).toNat = (base * r.toNat + d) % 2 ^ 64)
    (len : ℕ) (res : UInt64) :
    scanDigits digit push stops len res s = some (n, v, rest) ↔
      ∃ run, s = run ++ rest ∧ (∀ c ∈ run, digitVal c < base) ∧
        (∀ c ∈ rest.head?, ¬ digitVal c < base ∧ stops n c = true) ∧
        n = len + run.length ∧
        v.toNat = (numeral base run + base ^ run.length * res.toNat) % 2 ^ 64 := by
  induction s generalizing len res with
  | nil =>
    rw [scanDigits, Option.some.injEq, Prod.mk.injEq, Prod.mk.injEq]
    constructor
    · rintro ⟨rfl, rfl, rfl⟩
      refine ⟨[], rfl, nofun, nofun, rfl, ?_⟩
      simp [numeral]
    · rintro ⟨run, hs, -, -, rfl, hv⟩
      obtain ⟨rfl, rfl⟩ := List.append_eq_nil_iff.1 hs.symm
      refine ⟨rfl, UInt64.toNat.inj ?_, rfl⟩
      rw [hv]
      simp [numeral]
  | cons c s ih =>
    rw [scanDigits, hdigit]
    by_cases hc : digitVal c < base
    · have hval (run : List UInt8) :
          (numeral base run + base ^ run.length * (push res (UInt64.ofNat (digitVal c))).toNat)
              % 2 ^ 64 =
            (numeral base (c :: run) + base ^ (c :: run).length * res.toNat) % 2 ^ 64 := by
        rw [hpush _ _ hc, numeral_cons, List.length_cons, pow_succ base]
        have hmod : (base ^ run.length * ((base * res.toNat + digitVal c) % 2 ^ 64)) % 2 ^ 64 =
            (base ^ run.length * (base * res.toNat + digitVal c)) % 2 ^ 64 := Nat.mul_mod_mod ..
        rw [Nat.add_mod, hmod, ← Nat.add_mod]
        congr 1
        ring
      rw [if_pos hc]
      show scanDigits digit push stops (len + 1) _ s = _ ↔ _
      rw [ih]
      constructor
      · rintro ⟨run, rfl, hrun, hrest, rfl, hv⟩
        refine ⟨c :: run, rfl, List.forall_mem_cons.2 ⟨hc, hrun⟩, hrest, ?_, hv.trans (hval run)⟩
        rw [List.length_cons]
        omega
      · rintro ⟨_ | ⟨d, run⟩, hs, hrun, hrest, hn, hv⟩
        · exact absurd hc (hrest c (by rw [← List.nil_append rest, ← hs]; rfl)).1
        · obtain ⟨rfl, rfl⟩ := List.cons.inj hs
          refine ⟨run, rfl, (List.forall_mem_cons.1 hrun).2, hrest, ?_, hv.trans (hval run).symm⟩
          rw [hn, List.length_cons]
          omega
    · rw [if_neg hc]
      show (if stops len c = true then some (len, res, c :: s) else none) = _ ↔ _
      constructor
      · intro h
        split_ifs at h with hstop
        obtain ⟨rfl, rfl, rfl⟩ := h
        refine ⟨[], rfl, nofun, ?_, rfl, ?_⟩
        · rintro d ⟨⟩
          exact ⟨hc, hstop⟩
        · simp [numeral]
      · rintro ⟨_ | ⟨d, run⟩, hs, hrun, hrest, rfl, hv⟩
        · rw [List.nil_append] at hs
          subst hs
          have hv' : v = res := by
            refine UInt64.toNat.inj (hv.trans ?_)
            simp [numeral]
          rw [if_pos (hrest c rfl).2, hv']
        · exact absurd ((List.cons.inj hs).1 ▸ hrun d (List.mem_cons_self ..)) hc

/-- A number is scanned modulo `2 ^ 64`. -/
theorem extract_eq_ok_iff (hbase : base ≤ 16)
    (hdigit : ∀ c, digit c =
      if digitVal c < base then some (UInt64.ofNat (digitVal c)) else none)
    (hpush : ∀ r d, d < base →
      (push r (UInt64.ofNat d)).toNat = (base * r.toNat + d) % 2 ^ 64) :
    extract digit push (some s) = .ok (rest, v) ↔
      ∃ n, ReadsNumber base s rest n ∧ v.toNat = n % 2 ^ 64 := by
  have hspec {k : ℕ} {w : UInt64} {t : List UInt8} :
      scanDigits digit push (fun _ => isWs) 0 0 s = some (k, w, t) ↔ _ :=
    scanDigits_eq_some_iff hdigit hpush 0 0
  have hzero : (0 : UInt64).toNat = 0 := rfl
  constructor
  · intro h
    rw [extract] at h
    cases hscan : scanDigits digit push (fun _ => isWs) 0 0 s with
    | none => rw [hscan] at h; cases h
    | some out =>
      obtain ⟨k, w, t⟩ := out
      rw [hscan] at h
      obtain ⟨run, hs, hrun, hrest, hk, hw⟩ := hspec.1 hscan
      dsimp only at h
      split_ifs at h with hlen
      obtain ⟨rfl, rfl⟩ := Prod.mk.inj (Except.ok.inj h)
      have hne : run ≠ [] := by
        rintro rfl
        exact hlen hk
      rw [hzero, Nat.mul_zero, Nat.add_zero] at hw
      exact ⟨_, ⟨⟨run, hs, hne, hrun, rfl⟩, fun c hc => (hrest c hc).2⟩, hw⟩
  · rintro ⟨n, ⟨⟨run, hs, hne, hrun, rfl⟩, hrest⟩, hv⟩
    have hscan : scanDigits digit push (fun _ => isWs) 0 0 s = some (0 + run.length, v, rest) := by
      refine hspec.2 ⟨run, hs, hrun, fun c hc => ⟨?_, hrest c hc⟩, rfl, ?_⟩
      · rw [digitVal_of_isWs (hrest c hc)]
        omega
      · rw [hv, hzero, Nat.mul_zero, Nat.add_zero]
    rw [extract, hscan]
    dsimp only
    rw [if_neg (by simpa using hne)]

end Scan

/-- **One decimal digit more**, modulo 2⁶⁴. -/
theorem push_dec (r : UInt64) {d : ℕ} (hd : d < 10) :
    (r * 10 + UInt64.ofNat d).toNat = (10 * r.toNat + d) % 2 ^ 64 := by
  rw [UInt64.toNat_add, UInt64.toNat_mul, UInt64.toNat_ofNat_of_lt' (hd.trans (by decide))]
  show ((r.toNat * 10) % 2 ^ 64 + d) % 2 ^ 64 = _
  rw [Nat.mod_add_mod, Nat.mul_comm]

/-- One hexadecimal digit more, modulo 2⁶⁴. -/
theorem push_hex (r : UInt64) {d : ℕ} (hd : d < 16) :
    (r <<< 4 ||| UInt64.ofNat d).toNat = (16 * r.toNat + d) % 2 ^ 64 := by
  rw [UInt64.toNat_or, UInt64.toNat_shiftLeft, UInt64.toNat_ofNat_of_lt' (hd.trans (by decide))]
  show (r.toNat <<< 4) % 2 ^ 64 ||| d = _
  have hshift : (r.toNat <<< 4) % 2 ^ 64 = (r.toNat % 2 ^ 60) <<< 4 := by
    rw [Nat.shiftLeft_eq, Nat.shiftLeft_eq]
    omega
  rw [hshift, ← Nat.shiftLeft_add_eq_or_of_lt (by omega), Nat.shiftLeft_eq]
  omega

/-- The same as the scan of an address has it. -/
theorem push_addr (r : UInt64) {d : ℕ} (hd : d < 16) :
    (16 * r + UInt64.ofNat d).toNat = (16 * r.toNat + d) % 2 ^ 64 := by
  rw [UInt64.toNat_add, UInt64.toNat_mul, UInt64.toNat_ofNat_of_lt' (hd.trans (by decide))]
  show ((16 * r.toNat) % 2 ^ 64 + d) % 2 ^ 64 = _
  rw [Nat.mod_add_mod]

/-- **What the scan of a decimal operand gives**: the number read, modulo 2⁶⁴, and the rest of
the line. -/
theorem extractDecPtr_eq_ok_iff {s rest : List UInt8} {v : UInt64} :
    extractDecPtr (some s) = .ok (rest, v) ↔
      ∃ n, ReadsNumber 10 s rest n ∧ v.toNat = n % 2 ^ 64 :=
  extract_eq_ok_iff (by decide) decValue_eq fun r _ hd => push_dec r hd

/-- The same for a hexadecimal operand. -/
theorem extractHexPtr_eq_ok_iff {s rest : List UInt8} {v : UInt64} :
    extractHexPtr (some s) = .ok (rest, v) ↔
      ∃ n, ReadsNumber 16 s rest n ∧ v.toNat = n % 2 ^ 64 :=
  extract_eq_ok_iff le_rfl hexValue_eq fun r _ hd => push_hex r hd

/-- What is no number is invalid. -/
theorem extract_eq_error {digit : UInt8 → Option UInt64} {push : UInt64 → UInt64 → UInt64}
    {str : Option (List UInt8)} {e : Int} (h : extract digit push str = .error e) :
    e = -einval := by
  unfold extract at h
  split at h
  · exact (Except.error.inj h).symm
  · split at h
    · exact (Except.error.inj h).symm
    · split_ifs at h
      exact (Except.error.inj h).symm

/-- An operand that is none gives `-EINVAL`. -/
theorem extractHexPtr_eq_error {str : Option (List UInt8)} {e : Int}
    (h : extractHexPtr str = .error e) : e = -einval :=
  extract_eq_error h

/-- What `parse_addrspec` takes beyond an address: a period where no length is wanted. -/
def StopsAtPeriod (wanted : Bool) (s rest : List UInt8) (val : ℕ) : Prop :=
  wanted = false ∧ DigitRun 16 s rest val ∧ rest.head? = some 0x2e

/-- The loop of `parse_addrspec`. -/
def scanAddr (s : List UInt8) : Option (ℕ × UInt64 × List UInt8) :=
  scanDigits addrValue (fun tmp d => 16 * tmp + d)
    (fun parsed c => isWs c || (c == 0x2e && parsed != 0)) 0 0 s

/-- An address scanned is a number, followed by white space, a period or nothing. -/
theorem scanAddr_eq_some {s rest : List UInt8} {parsed : ℕ} {v : UInt64}
    (h : scanAddr s = some (parsed, v, rest)) (hparsed : parsed ≠ 0) :
    ∃ val, DigitRun 16 s rest val ∧ v.toNat = val % 2 ^ 64 ∧
      ∀ c ∈ rest.head?, isWs c = true ∨ c = 0x2e := by
  obtain ⟨run, hs, hrun, hrest, hlen, hv⟩ := (scanDigits_eq_some_iff
    (fun c => (addrValue_eq c).trans (hexValue_eq c)) (fun r _ hd => push_addr r hd) 0 0).1 h
  have hne : run ≠ [] := by
    rintro rfl
    exact hparsed hlen
  refine ⟨_, ⟨run, hs, hne, hrun, rfl⟩, hv, fun c hc => ?_⟩
  have hstop := (hrest c hc).2
  simp only [Bool.or_eq_true, Bool.and_eq_true, beq_iff_eq] at hstop
  exact hstop.imp_right And.left

/-- A number followed so is scanned as an address. -/
theorem scanAddr_of_digitRun {s rest : List UInt8} {val : ℕ} {v : UInt64}
    (h : DigitRun 16 s rest val) (hv : v.toNat = val % 2 ^ 64)
    (hrest : ∀ c ∈ rest.head?, isWs c = true ∨ c = 0x2e) :
    ∃ parsed, parsed ≠ 0 ∧ scanAddr s = some (parsed, v, rest) := by
  obtain ⟨run, hs, hne, hrun, rfl⟩ := h
  refine ⟨0 + run.length, by simpa using hne, ?_⟩
  refine (scanDigits_eq_some_iff (fun c => (addrValue_eq c).trans (hexValue_eq c))
    (fun r _ hd => push_addr r hd) 0 0).2 ⟨run, hs, hrun, fun c hc => ?_, rfl, hv⟩
  obtain hc | rfl := hrest c hc
  · refine ⟨?_, by rw [hc, Bool.true_or]⟩
    rw [digitVal_of_isWs hc]
    omega
  · exact ⟨by decide, by simp [hne]⟩

/-- The steps of an address with a length: the number, and behind a period another one. -/
theorem parseAddrspec_eq (wanted : Bool) (s : List UInt8) :
    parseAddrspec wanted s =
      match scanAddr s with
      | none => .error (-einval)
      | some (parsed, tmp, s) =>
        if wanted ∧ s.head? = some 0x2e then
          match extractHexPtr (some s.tail) with
          | .error _ => .error (-einval)
          | .ok (s, len) => if parsed = 0 then .error (-einval) else .ok (s, tmp, len)
        else if parsed = 0 then .error (-einval) else .ok (s, tmp, 0) := rfl

/-- An address is scanned modulo `2 ^ 64`, and so is its length. -/
theorem parseAddrspec_eq_ok_iff {wanted : Bool} {s rest : List UInt8} {v l : UInt64} :
    parseAddrspec wanted s = .ok (rest, v, l) ↔
      ∃ val len, (ReadsAddrspec wanted s rest val len ∨ StopsAtPeriod wanted s rest val ∧ len = 0) ∧
        v.toNat = val % 2 ^ 64 ∧ l.toNat = len % 2 ^ 64 := by
  rw [parseAddrspec_eq]
  constructor
  · intro h
    cases hscan : scanAddr s with
    | none => rw [hscan] at h; cases h
    | some out =>
      obtain ⟨parsed, w, t⟩ := out
      rw [hscan] at h
      dsimp only at h
      by_cases hperiod : wanted = true ∧ t.head? = some 0x2e
      · rw [if_pos hperiod] at h
        cases hlen : extractHexPtr (some t.tail) with
        | error e => rw [hlen] at h; cases h
        | ok out =>
          obtain ⟨u, m⟩ := out
          rw [hlen] at h
          dsimp only at h
          split_ifs at h with hparsed
          obtain ⟨rfl, rfl, rfl⟩ := Except.ok.inj h
          obtain ⟨val, hrun, hw, -⟩ := scanAddr_eq_some hscan hparsed
          obtain ⟨len, hread, hm⟩ := extractHexPtr_eq_ok_iff.1 hlen
          have ht : t = 0x2e :: t.tail := (List.cons_head?_tail hperiod.2).symm
          exact ⟨val, len, Or.inl (Or.inr ⟨hperiod.1, _, ht ▸ hrun, hread⟩), hw, hm⟩
      · rw [if_neg hperiod] at h
        split_ifs at h with hparsed
        obtain ⟨rfl, rfl, rfl⟩ := Except.ok.inj h
        obtain ⟨val, hrun, hw, hstop⟩ := scanAddr_eq_some hscan hparsed
        refine ⟨val, 0, ?_, hw, rfl⟩
        by_cases hhead : rest.head? = some 0x2e
        · have hwanted : wanted = false := by simpa [hhead] using hperiod
          exact Or.inr ⟨⟨hwanted, hrun, hhead⟩, rfl⟩
        · exact Or.inl (Or.inl ⟨⟨hrun, fun c hc =>
            (hstop c hc).resolve_right fun h => hhead (h ▸ hc)⟩, rfl⟩)
  · rintro ⟨val, len, (⟨⟨hrun, hrest⟩, rfl⟩ | ⟨hwanted, t, hrun, hread⟩) |
      ⟨⟨hwanted, hrun, hrest⟩, rfl⟩, hv, hl⟩
    · obtain ⟨parsed, hparsed, hscan⟩ :=
        scanAddr_of_digitRun hrun hv fun c hc => Or.inl (hrest c hc)
      have hperiod : ¬ (wanted = true ∧ rest.head? = some 0x2e) := fun h =>
        absurd (hrest _ h.2) (by decide)
      rw [hscan]
      dsimp only
      rw [if_neg hperiod, if_neg hparsed, (UInt64.toNat.inj hl : l = 0)]
    · obtain ⟨parsed, hparsed, hscan⟩ :=
        scanAddr_of_digitRun hrun hv fun c hc => Or.inr (Option.some.inj hc).symm
      rw [hscan]
      dsimp only
      rw [if_pos ⟨hwanted, rfl⟩, List.tail_cons, extractHexPtr_eq_ok_iff.2 ⟨len, hread, hl⟩]
      dsimp only
      rw [if_neg hparsed]
    · obtain ⟨parsed, hparsed, hscan⟩ := scanAddr_of_digitRun hrun hv fun c hc =>
        Or.inr (Option.some.inj (hc.symm.trans hrest))
      rw [hscan]
      dsimp only
      rw [if_neg (by simp [hwanted]), if_neg hparsed, (UInt64.toNat.inj hl : l = 0)]

/-- A run of digits is the only one before what is no digit. -/
theorem DigitRun.unique {base : ℕ} {s rest rest' : List UInt8} {n n' : ℕ}
    (h : DigitRun base s rest n) (h' : DigitRun base s rest' n')
    (hrest : ∀ c ∈ rest.head?, ¬ digitVal c < base)
    (hrest' : ∀ c ∈ rest'.head?, ¬ digitVal c < base) : rest = rest' ∧ n = n' := by
  have hsplit {t : List UInt8} {m : ℕ} (ht : DigitRun base s t m)
      (hhead : ∀ c ∈ t.head?, ¬ digitVal c < base) :
      t = s.dropWhile (digitVal · < base) ∧ m = numeral base (s.takeWhile (digitVal · < base)) := by
    obtain ⟨run, rfl, -, hrun, rfl⟩ := ht
    rw [List.dropWhile_append_of_pos (by simpa using hrun),
      List.takeWhile_append_of_pos (by simpa using hrun)]
    cases t with
    | nil => simp
    | cons c t =>
      have hc : ¬ digitVal c < base := hhead c rfl
      simp [hc]
  rw [(hsplit h hrest).1, (hsplit h' hrest').1, (hsplit h hrest).2, (hsplit h' hrest').2]
  exact ⟨rfl, rfl⟩

/-- An operand is read in one way at most. -/
theorem ReadsNumber.unique {base : ℕ} (hbase : base ≤ 16) {s rest rest' : List UInt8} {n n' : ℕ}
    (h : ReadsNumber base s rest n) (h' : ReadsNumber base s rest' n') :
    rest = rest' ∧ n = n' := by
  have hhead {t : List UInt8} (ht : ∀ c ∈ t.head?, isWs c = true) :
      ∀ c ∈ t.head?, ¬ digitVal c < base := by
    intro c hc
    rw [digitVal_of_isWs (ht c hc)]
    omega
  exact h.1.unique h'.1 (hhead h.2) (hhead h'.2)

/-- What `parse_addrspec` reads is one address, up to where it stops. -/
theorem addrspec_unique {wanted : Bool} {s rest rest' : List UInt8} {val val' len len' : ℕ}
    (h : ReadsAddrspec wanted s rest val len ∨ StopsAtPeriod wanted s rest val ∧ len = 0)
    (h' : ReadsAddrspec wanted s rest' val' len') : rest = rest' ∧ val = val' ∧ len = len' := by
  have hperiod : ∀ c ∈ (some 0x2e : Option UInt8), ¬ digitVal c < 16 := by decide +kernel
  have hws {t : List UInt8} (ht : ∀ c ∈ t.head?, isWs c = true) :
      ∀ c ∈ t.head?, ¬ digitVal c < 16 := by
    intro c hc
    rw [digitVal_of_isWs (ht c hc)]
    omega
  obtain (⟨hnum, rfl⟩ | ⟨hwanted, t, hrun, hnum⟩) | ⟨⟨hwanted, hrun, hrest⟩, rfl⟩ := h
  all_goals obtain ⟨hnum', rfl⟩ | ⟨hwanted', t', hrun', hnum'⟩ := h'
  · obtain ⟨rfl, rfl⟩ := hnum.unique le_rfl hnum'
    exact ⟨rfl, rfl, rfl⟩
  · obtain ⟨rfl, -⟩ := hnum.1.unique hrun' (hws hnum.2) hperiod
    exact absurd (hnum.2 _ rfl) (by decide)
  · obtain ⟨rfl, -⟩ := hnum'.1.unique hrun (hws hnum'.2) hperiod
    exact absurd (hnum'.2 _ rfl) (by decide)
  · obtain ⟨ht, rfl⟩ := hrun.unique hrun' hperiod hperiod
    obtain rfl := (List.cons.inj ht).2
    obtain ⟨rfl, rfl⟩ := hnum.unique le_rfl hnum'
    exact ⟨rfl, rfl, rfl⟩
  · obtain ⟨rfl, -⟩ := hrun.unique hnum'.1 (hrest ▸ hperiod) (hws hnum'.2)
    exact absurd (hnum'.2 _ hrest) (by decide)
  · exact absurd (hwanted.symm.trans hwanted') Bool.false_ne_true

/-! ### What stands around an operand -/

section Around

variable {digit : UInt8 → Option UInt64} {push : UInt64 → UInt64 → UInt64}
  {stops : ℕ → UInt8 → Bool}

/-- What stops every scan does not change what is scanned before it. -/
theorem scanDigits_append (w : List UInt8) {rest : List UInt8}
    (hrest : ∀ c ∈ rest.head?, digit c = none ∧ ∀ n, stops n c = true) (len : ℕ) (res : UInt64) :
    scanDigits digit push stops len res (w ++ rest) =
      (scanDigits digit push stops len res w).map fun r => (r.1, r.2.1, r.2.2 ++ rest) := by
  induction w generalizing len res with
  | nil =>
    cases rest with
    | nil => rfl
    | cons c rest =>
      obtain ⟨hdigit, hstops⟩ := hrest c rfl
      rw [List.nil_append, scanDigits, scanDigits, hdigit]
      dsimp only
      rw [if_pos (hstops len)]
      rfl
  | cons c w ih =>
    rw [List.cons_append, scanDigits, scanDigits]
    cases digit c with
    | some d => exact ih (len + 1) (push res d)
    | none =>
      dsimp only
      split_ifs <;> rfl

/-- White space is no decimal digit. -/
theorem decValue_of_isWs {c : UInt8} (h : isWs c = true) : decValue c = none := by
  rw [decValue_eq, digitVal_of_isWs h]
  rfl

/-- White space is no hexadecimal digit. -/
theorem hexValue_of_isWs {c : UInt8} (h : isWs c = true) : hexValue c = none := by
  rw [hexValue_eq, digitVal_of_isWs h]
  rfl

/-- **A number is read the same with white space behind it**, which is then part of the rest. -/
theorem extract_append (hdigit : ∀ c, isWs c = true → digit c = none) (w : List UInt8)
    {rest : List UInt8} (hrest : ∀ c ∈ rest.head?, isWs c = true) :
    extract digit push (some (w ++ rest)) =
      (extract digit push (some w)).map fun r => (r.1 ++ rest, r.2) := by
  rw [extract, extract,
    scanDigits_append w fun c hc => ⟨hdigit c (hrest c hc), fun _ => hrest c hc⟩]
  cases scanDigits digit push (fun _ => isWs) 0 0 w with
  | none => rfl
  | some r =>
    dsimp only [Option.map_some]
    split_ifs <;> rfl

/-- An operand with a blank in front is invalid. -/
theorem extract_of_isWs (hdigit : ∀ c, isWs c = true → digit c = none) {c : UInt8}
    (hc : isWs c = true) (s : List UInt8) :
    extract digit push (some (c :: s)) = .error (-einval) := by
  rw [extract, scanDigits, hdigit c hc]
  dsimp only
  rw [if_pos hc]
  rfl

/-- The same for a hexadecimal operand. -/
theorem extractHexPtr_append (w : List UInt8) {rest : List UInt8}
    (hrest : ∀ c ∈ rest.head?, isWs c = true) :
    extractHexPtr (some (w ++ rest)) =
      (extractHexPtr (some w)).map fun r => (r.1 ++ rest, r.2) :=
  extract_append (fun _ => hexValue_of_isWs) w hrest

/-- The same for a decimal one. -/
theorem extractDecPtr_append (w : List UInt8) {rest : List UInt8}
    (hrest : ∀ c ∈ rest.head?, isWs c = true) :
    extractDecPtr (some (w ++ rest)) =
      (extractDecPtr (some w)).map fun r => (r.1 ++ rest, r.2) :=
  extract_append (fun _ => decValue_of_isWs) w hrest

/-- The same for an address. -/
theorem parseAddrspec_append (wanted : Bool) (w : List UInt8) {rest : List UInt8}
    (hrest : ∀ c ∈ rest.head?, isWs c = true) :
    parseAddrspec wanted (w ++ rest) =
      (parseAddrspec wanted w).map fun r => (r.1 ++ rest, r.2) := by
  have hscan : scanAddr (w ++ rest) =
      (scanAddr w).map fun r => (r.1, r.2.1, r.2.2 ++ rest) := by
    refine scanDigits_append w (fun c hc => ⟨?_, fun n => ?_⟩) 0 0
    · rw [addrValue_eq, hexValue_of_isWs (hrest c hc)]
    · rw [hrest c hc, Bool.true_or]
  rw [parseAddrspec_eq, parseAddrspec_eq, hscan]
  cases scanAddr w with
  | none => rfl
  | some r =>
    obtain ⟨parsed, tmp, s⟩ := r
    dsimp only [Option.map_some]
    -- the period is in the operand
    have hperiod : (s ++ rest).head? = some 0x2e ↔ s.head? = some 0x2e := by
      cases s with
      | nil =>
        refine iff_of_false (fun h => ?_) nofun
        exact absurd (hrest _ h) (by decide)
      | cons c s => exact Iff.rfl
    by_cases hlen : wanted = true ∧ s.head? = some 0x2e
    · rw [if_pos ⟨hlen.1, hperiod.2 hlen.2⟩, if_pos hlen]
      obtain ⟨c, s, rfl⟩ := List.ne_nil_iff_exists_cons.1 fun h : s = [] => by
        rw [h] at hlen
        exact nomatch hlen.2
      rw [List.cons_append, List.tail_cons, List.tail_cons, extractHexPtr_append s hrest]
      cases extractHexPtr (some s) with
      | error e => rfl
      | ok r =>
        dsimp only [Except.map]
        split_ifs <;> rfl
    · rw [if_neg fun h => hlen ⟨h.1, hperiod.1 h.2⟩, if_neg hlen]
      split_ifs <;> rfl

/-- An address does not begin with white space. -/
theorem parseAddrspec_of_isWs (wanted : Bool) {c : UInt8} (hc : isWs c = true) (s : List UInt8) :
    parseAddrspec wanted (c :: s) = .error (-einval) := by
  have hscan : scanAddr (c :: s) = some (0, 0, c :: s) := by
    rw [scanAddr, scanDigits, addrValue_eq, hexValue_of_isWs hc]
    dsimp only
    rw [if_pos (by rw [hc, Bool.true_or])]
  have hperiod : ¬ (wanted = true ∧ (c :: s).head? = some 0x2e) := by
    rintro ⟨-, hhead⟩
    obtain rfl := Option.some.inj hhead
    exact absurd hc (by decide)
  rw [parseAddrspec_eq, hscan]
  dsimp only
  rw [if_neg hperiod, if_pos rfl]

end Around

/-! ### Exactness -/

/-- `r`, the result for `s`, is the number exactly where `s` is one. -/
def ExactNumber (base : ℕ) (s : List UInt8) (r : Except Int (List UInt8 × UInt64)) : Prop :=
  ∀ rest v, r = .ok (rest, v) ↔ ReadsNumber base s rest v.toNat

/-- The same for an address and its length. -/
def ExactAddrspec (wanted : Bool) (s : List UInt8)
    (r : Except Int (List UInt8 × UInt64 × UInt64)) : Prop :=
  ∀ rest v l, r = .ok (rest, v, l) ↔ ReadsAddrspec wanted s rest v.toNat l.toNat

/-- What is scanned modulo `2 ^ 64` is exact where it is less. -/
theorem exactNumber_iff {base : ℕ} (hbase : base ≤ 16) {s : List UInt8}
    {r : Except Int (List UInt8 × UInt64)}
    (hr : ∀ rest v, r = .ok (rest, v) ↔ ∃ n, ReadsNumber base s rest n ∧ v.toNat = n % 2 ^ 64) :
    ExactNumber base s r ↔ ∀ rest n, ReadsNumber base s rest n → n < 2 ^ 64 := by
  constructor
  · intro h rest n hread
    have hok := (hr rest (UInt64.ofNat n)).2 ⟨n, hread, UInt64.toNat_ofNat ..⟩
    have hn := (hread.unique hbase ((h _ _).1 hok)).2
    rw [hn]
    exact UInt64.toNat_lt _
  · intro h rest v
    rw [hr]
    constructor
    · rintro ⟨n, hread, hv⟩
      rwa [hv, Nat.mod_eq_of_lt (h _ _ hread)]
    · intro hread
      exact ⟨_, hread, (Nat.mod_eq_of_lt v.toNat_lt).symm⟩

/-- **An address is read exactly** when its numbers fit 64 bits and no period ends it without a
length. -/
theorem exactAddrspec_iff {wanted : Bool} {s : List UInt8} :
    ExactAddrspec wanted s (parseAddrspec wanted s) ↔
      (∀ rest val len, ReadsAddrspec wanted s rest val len → val < 2 ^ 64 ∧ len < 2 ^ 64) ∧
        ¬ ∃ rest val, StopsAtPeriod wanted s rest val := by
  constructor
  · intro h
    constructor
    · intro rest val len hread
      have hok := (parseAddrspec_eq_ok_iff (v := UInt64.ofNat val) (l := UInt64.ofNat len)).2
        ⟨val, len, Or.inl hread, UInt64.toNat_ofNat .., UInt64.toNat_ofNat ..⟩
      obtain ⟨-, hval, hlen⟩ := addrspec_unique (Or.inl hread) ((h _ _ _).1 hok)
      rw [hval, hlen]
      exact ⟨UInt64.toNat_lt _, UInt64.toNat_lt _⟩
    · rintro ⟨rest, val, hstop⟩
      have hok := (parseAddrspec_eq_ok_iff (v := UInt64.ofNat val) (l := 0)).2
        ⟨val, 0, Or.inr ⟨hstop, rfl⟩, UInt64.toNat_ofNat .., rfl⟩
      have hread := (h _ _ _).1 hok
      obtain ⟨hnum, -⟩ | ⟨hwanted, -⟩ := hread
      · exact absurd (hnum.2 _ hstop.2.2) (by decide)
      · exact absurd (hstop.1.symm.trans hwanted) Bool.false_ne_true
  · rintro ⟨hlt, hstop⟩ rest v l
    rw [parseAddrspec_eq_ok_iff]
    constructor
    · rintro ⟨val, len, hread | ⟨hperiod, -⟩, hv, hl⟩
      · obtain ⟨hval, hlen⟩ := hlt _ _ _ hread
        rwa [hv, hl, Nat.mod_eq_of_lt hval, Nat.mod_eq_of_lt hlen]
      · exact absurd ⟨_, _, hperiod⟩ hstop
    · intro hread
      exact ⟨_, _, Or.inl hread, (Nat.mod_eq_of_lt v.toNat_lt).symm,
        (Nat.mod_eq_of_lt l.toNat_lt).symm⟩

/-- **The operands are exact exactly when** their numbers are less than `2 ^ 64` and no
address stops at a period where no length is wanted: digits are taken in without a check for
overflow, and a period ends an address either way. -/
theorem operands_exact_iff (s : List UInt8) :
    (ExactNumber 10 s (extractDecPtr (some s)) ↔
      ∀ rest n, ReadsNumber 10 s rest n → n < 2 ^ 64) ∧
    (ExactNumber 16 s (extractHexPtr (some s)) ↔
      ∀ rest n, ReadsNumber 16 s rest n → n < 2 ^ 64) ∧
    ∀ wanted, ExactAddrspec wanted s (parseAddrspec wanted s) ↔
      (∀ rest val len, ReadsAddrspec wanted s rest val len → val < 2 ^ 64 ∧ len < 2 ^ 64) ∧
        ¬ ∃ rest val, StopsAtPeriod wanted s rest val :=
  ⟨exactNumber_iff (by decide) fun _ _ => extractDecPtr_eq_ok_iff,
    exactNumber_iff le_rfl fun _ _ => extractHexPtr_eq_ok_iff, fun _ => exactAddrspec_iff⟩

/-- `"10000000000000000"`, seventeen digits, is read as 0. -/
theorem not_operands_exact :
    ¬ ∀ s, ExactNumber 10 s (extractDecPtr (some s)) ∧ ExactNumber 16 s (extractHexPtr (some s)) ∧
      ∀ wanted, ExactAddrspec wanted s (parseAddrspec wanted s) := by
  intro h
  have hread := ((h (0x31 :: List.replicate 16 0x30)).2.1 [] 0).1 (by rfl)
  obtain ⟨⟨run, hs, -, -, hn⟩, -⟩ := hread
  rw [List.append_nil] at hs
  rw [← hs] at hn
  exact absurd hn (by decide)

end Hvf
