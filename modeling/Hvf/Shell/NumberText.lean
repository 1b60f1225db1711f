/-
# Numbers that are printed can be read

What `vsnprintf` prints for a 64-bit number, in any width and precision, the operands of
commands give back: `__extract_hex` and `parse_addrspec` for `%x` and `%X`, `__extract_dec`
for `%u` and, if it is not negative and has no sign, for `%d` and `%i`
(`printed_number_read`).  Blanks on the left are consumed, those on the right are left.
-/

import Hvf.Shell.Operand
import Hvf.VsprintfText

namespace Hvf

open Vsprintf

/-! ### Digits -/

/-- A digit printed has its value when read, in either case. -/
theorem digitVal_digit (large : Bool) {d : ℕ} (hd : d < 16) :
    digitVal ((if large then largeDigits else smallDigits).getD d 0) = d := by
  have hall : ∀ large : Bool, ∀ d < 16,
      digitVal ((if large then largeDigits else smallDigits).getD d 0) = d := by decide
  exact hall large d hd

/-- The digits of a number are a run of digits with its value. -/
theorem digitsText_run (large : Bool) {base : ℕ} (hbase : 1 < base) (hle : base ≤ 16) (n : ℕ) :
    digitsText large base n ≠ [] ∧ (∀ c ∈ digitsText large base n, digitVal c < base) ∧
      numeral base (digitsText large base n) = n := by
  by_cases hn : n = 0
  · rw [hn, digitsText, if_pos rfl]
    refine ⟨List.cons_ne_nil _ _, fun c hc => ?_, ?_⟩
    · rw [List.mem_singleton.1 hc, show digitVal 0x30 = 0 from rfl]
      omega
    · rw [numeral, List.map_singleton, List.reverse_singleton, Nat.ofDigits_singleton]
      rfl
  · have hlt : ∀ d ∈ Nat.digits base n, d < base := fun d hd => Nat.digits_lt_base hbase hd
    rw [digitsText, if_neg hn]
    refine ⟨?_, fun c hc => ?_, ?_⟩
    · rw [Ne, List.reverse_eq_nil_iff, List.map_eq_nil_iff]
      exact Nat.digits_ne_nil_iff_ne_zero.2 hn
    · obtain ⟨d, hd, rfl⟩ := List.mem_map.1 (List.mem_reverse.1 hc)
      rw [digitVal_digit large ((hlt d hd).trans_le hle)]
      exact hlt d hd
    · rw [numeral, List.map_reverse, List.reverse_reverse, List.map_map]
      have hid : (Nat.digits base n).map
          (digitVal ∘ fun d => (if large then largeDigits else smallDigits).getD d 0) =
          Nat.digits base n := by
        refine (List.map_congr_left fun d hd => ?_).trans (List.map_id _)
        exact digitVal_digit large ((hlt d hd).trans_le hle)
      rw [hid, Nat.ofDigits_digits]

/-- Zeros before a run do not count. -/
theorem repeated_run (base : ℕ) (hbase : 0 < base) (n : Int) {run : List UInt8}
    (hrun : ∀ c ∈ run, digitVal c < base) :
    (∀ c ∈ repeated 0x30 n ++ run, digitVal c < base) ∧
      numeral base (repeated 0x30 n ++ run) = numeral base run := by
  rw [repeated]
  induction n.toNat with
  | zero => exact ⟨hrun, rfl⟩
  | succ k ih =>
    rw [List.replicate_succ, List.cons_append]
    refine ⟨List.forall_mem_cons.2 ⟨hbase, ih.1⟩, ?_⟩
    rw [numeral_cons, ih.2, show digitVal 0x30 = 0 from rfl, Nat.mul_zero, Nat.add_zero]

/-! ### The text of a number -/

/-- The padding in front of a number is white space, and no digit is. -/
theorem dropWhile_repeated (n : Int) (run rest : List UInt8) {base : ℕ} (hle : base ≤ 16)
    (hne : run ≠ []) (hrun : ∀ c ∈ run, digitVal c < base) :
    (repeated 0x20 n ++ (run ++ rest)).dropWhile isWs = run ++ rest := by
  have hblank : ∀ c ∈ repeated 0x20 n, isWs c = true := fun c hc => by
    rw [List.eq_of_mem_replicate hc]
    rfl
  obtain ⟨c, run, rfl⟩ := List.exists_cons_of_ne_nil hne
  rw [List.dropWhile_append_of_pos hblank, List.cons_append, List.dropWhile_cons_of_neg]
  intro hws
  have hc := hrun c List.mem_cons_self
  rw [digitVal_of_isWs hws] at hc
  omega

/-- **A number without a sign and a prefix** is read back behind its blanks. -/
theorem numberText_reads {num n : UInt64} {base : ℕ} (hbase : 1 < base) (hle : base ≤ 16)
    (width precision : Int) {flags : Flags} (hsign : signText flags num = ([], n))
    (hspecial : flags.special = false) :
    ∃ rest, (∀ c ∈ rest, isWs c = true) ∧ ReadsNumber base
      ((numberText num base width precision flags).dropWhile isWs) rest n.toNat := by
  obtain ⟨hne, hdigits, hval⟩ := digitsText_run flags.large hbase hle n.toNat
  have hprefix : prefixText flags base = [] := by
    rw [prefixText, if_neg (by rw [hspecial]; exact Bool.false_ne_true)]
  obtain ⟨hprec, hprecVal⟩ := repeated_run base (by omega)
    (precision - (digitsText flags.large base n.toNat).length) hdigits
  have hws (k : Int) : ∀ c ∈ repeated 0x20 k, isWs c = true := fun c hc => by
    rw [List.eq_of_mem_replicate hc]
    rfl
  rw [numberText, hsign, hprefix]
  dsimp only
  rw [List.append_nil, List.nil_append]
  generalize hlong : repeated 0x30 (precision - (digitsText flags.large base n.toNat).length) ++
    digitsText flags.large base n.toNat = long at hprec hprecVal ⊢
  have hlongNe : long ≠ [] := by
    rw [← hlong]
    exact List.append_ne_nil_of_right_ne_nil _ hne
  have hnil : ∀ c ∈ ([] : List UInt8), isWs c = true := fun c hc => absurd hc List.not_mem_nil
  have hhead : ∀ c ∈ ([] : List UInt8).head?, isWs c = true := fun c hc => by cases hc
  by_cases hleft : flags.left
  · refine ⟨repeated 0x20 (width - long.length), hws _, ⟨long, ?_, hlongNe, hprec, ?_⟩, ?_⟩
    · rw [if_pos hleft]
      exact dropWhile_repeated 0 long _ hle hlongNe hprec
    · rw [hprecVal, hval]
    · exact fun c hc => hws _ c (List.mem_of_mem_head? hc)
  · rw [if_neg hleft]
    by_cases hzeropad : flags.zeropad
    · obtain ⟨hzeros, hzerosVal⟩ := repeated_run base (by omega) (width - long.length) hprec
      have hzerosNe : repeated 0x30 (width - long.length) ++ long ≠ [] :=
        List.append_ne_nil_of_right_ne_nil _ hlongNe
      refine ⟨[], hnil, ⟨_, ?_, hzerosNe, hzeros, ?_⟩, hhead⟩
      · rw [if_pos hzeropad, List.nil_append]
        have hdrop := dropWhile_repeated 0 _ [] hle hzerosNe hzeros
        rw [List.append_nil] at hdrop ⊢
        exact hdrop
      · rw [hzerosVal, hprecVal, hval]
    · refine ⟨[], hnil, ⟨long, ?_, hlongNe, hprec, ?_⟩, hhead⟩
      · rw [if_neg hzeropad, List.append_nil]
        have hdrop := dropWhile_repeated (width - long.length) long [] hle hlongNe hprec
        rw [List.append_nil] at hdrop
        rw [List.append_nil]
        exact hdrop
      · rw [hprecVal, hval]

/-! ### A conversion -/

section

variable (strings : UInt64 → List UInt8) (args : ℕ → UInt64) {conv : Conversion}

/-- With `SIGN`. -/
def Vsprintf.Flags.signed (flags : Flags) : Flags := { flags with sign := true }

/-- The text of an integer in 64 bits. -/
theorem render_wide {c : UInt8} {base : ℕ} (upd : Flags → Flags)
    (hbase : ∀ flags, integerBase flags c = some (base, upd flags))
    (hc : c ≠ 0x63 ∧ c ≠ 0x73 ∧ c ≠ 0x70 ∧ c ≠ 0x6e ∧ c ≠ 0x25) (hchar : conv.char = some c)
    (hqualifier : conv.qualifier = 0x6c ∨ conv.qualifier = 0x4c) :
    ∃ n width precision left, (Piece.conversion conv).render strings args ⟨[], 0, []⟩ =
      ⟨numberText (args n) base width precision (upd { conv.flags with left := left }),
        n + 1, []⟩ := by
  have hleft : ∃ left, (conv.widthOf args 0).2.1 = { conv.flags with left := left } := by
    rw [Conversion.widthOf]
    split
    · exact ⟨conv.flags.left, rfl⟩
    · dsimp only
      split_ifs
      · exact ⟨true, rfl⟩
      · exact ⟨conv.flags.left, rfl⟩
  obtain ⟨left, hleft⟩ := hleft
  have hnum (sign : Bool) (slot : UInt64) : numArg conv.qualifier sign slot = slot := by
    rw [numArg, if_pos]
    rcases hqualifier with h | h
    · exact Or.inr (Or.inl h)
    · exact Or.inl h
  refine ⟨(conv.precisionOf args (conv.widthOf args 0).2.2).2, (conv.widthOf args 0).1,
    (conv.precisionOf args (conv.widthOf args 0).2.2).1, left, ?_⟩
  rw [Piece.render, hchar]
  dsimp only
  rw [hleft, renderChar]
  dsimp only
  rw [if_neg hc.1, if_neg hc.2.1, if_neg hc.2.2.1, if_neg hc.2.2.2.1, if_neg hc.2.2.2.2, hbase]
  dsimp only
  rw [hnum, List.nil_append]

end

/-- `SIGN` is not among the flags of a format. -/
theorem scanFlags_sign (flags : Flags) (fmt : List UInt8) :
    (scanFlags flags fmt).1.sign = flags.sign := by
  induction fmt generalizing flags with
  | nil => rfl
  | cons c fmt ih =>
    rw [scanFlags]
    split_ifs
    any_goals exact ih _
    rfl

/-- A directive's flags do not have the sign, which its letter gives. -/
theorem parseFormat_sign {fmt : List UInt8} {conv : Conversion}
    (h : parseFormat fmt = [.conversion conv]) : conv.flags.sign = false := by
  cases fmt with
  | nil =>
    rw [parseFormat] at h
    cases h
  | cons c fmt =>
    rw [parseFormat] at h
    split_ifs at h
    · cases h
    · obtain ⟨hconv, -⟩ := List.cons.inj h
      rw [← Piece.conversion.inj hconv]
      exact scanFlags_sign {} fmt

/-- **What is printed is read back.**  Let a format be one conversion of a 64-bit number,
without the prefix, of any width and precision.  Behind its blanks the text of a hexadecimal
number is read as that number, by `__extract_hex` and as an address; so is that of a decimal
number by `__extract_dec`, if no sign is shown. -/
theorem printed_number_read (strings : UInt64 → List UInt8) (args : ℕ → UInt64)
    {fmt : List UInt8} {conv : Conversion} (hfmt : parseFormat fmt = [.conversion conv])
    (hqualifier : conv.qualifier = 0x6c ∨ conv.qualifier = 0x4c)
    (hspecial : conv.flags.special = false) :
    let r := formatText strings args fmt
    let num := args (r.next - 1)
    (conv.char = some 0x78 ∨ conv.char = some 0x58 →
      ∃ rest, (∀ c ∈ rest, isWs c = true) ∧
        extractHexPtr (consumeWs (some r.text)) = .ok (rest, num) ∧
        ∀ wanted, parseAddrspec wanted (r.text.dropWhile isWs) = .ok (rest, num, 0)) ∧
      (conv.char = some 0x75 ∨ (conv.char = some 0x64 ∨ conv.char = some 0x69) ∧
          num < 0x8000000000000000 ∧ conv.flags.plus = false ∧ conv.flags.space = false →
        ∃ rest, (∀ c ∈ rest, isWs c = true) ∧
          extractDecPtr (consumeWs (some r.text)) = .ok (rest, num)) := by
  have hsign := parseFormat_sign hfmt
  have htext : formatText strings args fmt =
      (Piece.conversion conv).render strings args ⟨[], 0, []⟩ := by
    rw [formatText, hfmt]
    rfl
  intro r num
  -- the number is read with the base that it was printed in
  have hreads {base n : ℕ} (hbase : 1 < base) (hle : base ≤ 16) (width precision : Int)
      {flags : Flags} (hr : r = ⟨numberText (args n) base width precision flags, n + 1, []⟩)
      (hshown : signText flags (args n) = ([], args n)) (hplain : flags.special = false) :
      ∃ rest, (∀ c ∈ rest, isWs c = true) ∧
        ReadsNumber base (r.text.dropWhile isWs) rest num.toNat := by
    have hnum : num = args n := by
      show args (r.next - 1) = args n
      rw [hr, Nat.add_sub_cancel]
    rw [hnum, hr]
    exact numberText_reads hbase hle width precision hshown hplain
  have hval : num.toNat = num.toNat % 2 ^ 64 := (Nat.mod_eq_of_lt num.toNat_lt).symm
  have hnone {flags : Flags} {slot : UInt64} (h : flags.sign = false) :
      signText flags slot = ([], slot) := by
    rw [signText, if_neg (by rw [h]; exact Bool.false_ne_true)]
  refine ⟨fun hchar => ?_, fun hchar => ?_⟩
  · have hread : ∃ rest, (∀ c ∈ rest, isWs c = true) ∧
        ReadsNumber 16 (r.text.dropWhile isWs) rest num.toNat := by
      rcases hchar with hchar | hchar
      · obtain ⟨n, width, precision, left, hr⟩ := render_wide strings args id (fun _ => rfl)
          (by decide) hchar hqualifier
        exact hreads (by decide) le_rfl width precision (htext.trans hr) (hnone hsign) hspecial
      · obtain ⟨n, width, precision, left, hr⟩ := render_wide strings args
          (fun flags => { flags with large := true }) (fun _ => rfl) (by decide) hchar hqualifier
        exact hreads (by decide) le_rfl width precision (htext.trans hr) (hnone hsign) hspecial
    obtain ⟨rest, hrest, hread⟩ := hread
    exact ⟨rest, hrest, extractHexPtr_eq_ok_iff.2 ⟨_, hread, hval⟩, fun wanted =>
      parseAddrspec_eq_ok_iff.2 ⟨_, 0, Or.inl (Or.inl ⟨hread, rfl⟩), hval, rfl⟩⟩
  · have hread : ∃ rest, (∀ c ∈ rest, isWs c = true) ∧
        ReadsNumber 10 (r.text.dropWhile isWs) rest num.toNat := by
      rcases hchar with hchar | ⟨hchar, hlt, hplus, hspace⟩
      · obtain ⟨n, width, precision, left, hr⟩ := render_wide strings args id (fun _ => rfl)
          (by decide) hchar hqualifier
        exact hreads (by decide) (by decide) width precision (htext.trans hr) (hnone hsign) hspecial
      · have hbase : ∀ flags : Flags, integerBase flags 0x64 = some (10, flags.signed) ∧
            integerBase flags 0x69 = some (10, flags.signed) := fun _ => ⟨rfl, rfl⟩
        obtain ⟨n, width, precision, left, hr⟩ : ∃ n width precision left,
            (Piece.conversion conv).render strings args ⟨[], 0, []⟩ = ⟨numberText (args n) 10 width
              precision (Flags.signed { conv.flags with left := left }), n + 1, []⟩ := by
          rcases hchar with hchar | hchar
          · exact render_wide strings args _ (fun flags => (hbase flags).1) (by decide) hchar
              hqualifier
          · exact render_wide strings args _ (fun flags => (hbase flags).2) (by decide) hchar
              hqualifier
        have hnum : num = args n := by
          show args ((formatText strings args fmt).next - 1) = args n
          rw [htext, hr, Nat.add_sub_cancel]
        refine hreads (by decide) (by decide) width precision (htext.trans hr) ?_ hspecial
        rw [signText, Flags.signed, if_pos rfl, if_neg (by rw [← hnum]; exact UInt64.not_le.2 hlt)]
        dsimp only
        rw [hplus, hspace, if_neg Bool.false_ne_true, if_neg Bool.false_ne_true]
    obtain ⟨rest, hrest, hread⟩ := hread
    exact ⟨rest, hrest, extractDecPtr_eq_ok_iff.2 ⟨_, hread, hval⟩⟩

/-- `%016lX` of 0xBEEF: sixteen digits, which the scanners of operands read as the number.
-/
theorem printed_number_read_beef :
    ∃ rest, extractHexPtr (consumeWs (some (formatText (fun _ => []) (fun _ => 0xBEEF)
      [0x25, 0x30, 0x31, 0x36, 0x6c, 0x58]).text)) = .ok (rest, 0xBEEF) := by
  have hconv : parseConversion [0x30, 0x31, 0x36, 0x6c, 0x58] =
      (⟨{ zeropad := true }, some (.lit 16), none, 0x6c, some 0x58⟩, []) := by decide
  have hfmt : parseFormat [0x25, 0x30, 0x31, 0x36, 0x6c, 0x58] =
      [.conversion ⟨{ zeropad := true }, some (.lit 16), none, 0x6c, some 0x58⟩] := by
    rw [parseFormat, if_neg (by decide), hconv, parseFormat]
  obtain ⟨rest, -, hread, -⟩ := (printed_number_read (fun _ => []) (fun _ => 0xBEEF) hfmt
    (Or.inl rfl) rfl).1 (Or.inr rfl)
  exact ⟨rest, hread⟩

end Hvf
