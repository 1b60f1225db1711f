/-
# The text of a format

What `vsnprintf` is to print, as the text of the pieces of its format (`formatText`): a
number has its sign, its prefix and at least as many digits as the precision says, and is
filled up to the width with blanks on the right, zeros behind the prefix or blanks on the
left.  `vsnprintf` stores as much of the text as fits, with a NUL behind it, and returns the
length of the whole (`vsnprintf_text`), which is what its callers are told.
-/

import Hvf.Nucleus.Printf
import Hvf.Vsprintf

namespace Hvf.Vsprintf

open Bytes Sink

/-! ### Numbers -/

/-- The digits of a number. -/
def digitsText (large : Bool) (base n : ℕ) : List UInt8 :=
  if n = 0 then [0x30]
  else ((Nat.digits base n).map fun d =>
    (if large then largeDigits else smallDigits).getD d 0).reverse

/-- The sign, if one is shown, and the number without it. -/
def signText (flags : Flags) (num : UInt64) : List UInt8 × UInt64 :=
  if flags.sign then
    if 0x8000000000000000 ≤ num then ([0x2d], -num)
    else if flags.plus then ([0x2b], num)
    else if flags.space then ([0x20], num)
    else ([], num)
  else ([], num)

/-- `0x` or `0`. -/
def prefixText (flags : Flags) (base : ℕ) : List UInt8 :=
  if flags.special then
    if base = 16 then [0x30, if flags.large then 0x58 else 0x78]
    else if base = 8 then [0x30] else []
  else []

/-- `n` blanks or zeros. -/
def repeated (c : UInt8) (n : Int) : List UInt8 := List.replicate n.toNat c

/-- A number. -/
def numberText (num : UInt64) (base : ℕ) (width precision : Int) (flags : Flags) : List UInt8 :=
  let (sign, num) := signText flags num
  let start := sign ++ prefixText flags base
  let digits := digitsText flags.large base num.toNat
  let digits := repeated 0x30 (precision - digits.length) ++ digits
  let blanks := width - (start ++ digits).length
  if flags.left then start ++ digits ++ repeated 0x20 blanks
  else if flags.zeropad then start ++ repeated 0x30 blanks ++ digits
  else repeated 0x20 blanks ++ start ++ digits

/-- **The division loop gives the digits**, the lowest first. -/
theorem divDigits_eq (digits : List UInt8) {base n : ℕ} (hbase : 1 < base) {num : UInt64}
    (h : num.toNat < 2 ^ n) :
    divDigits digits base n num = (Nat.digits base num.toNat).map fun d => digits.getD d 0 := by
  induction n generalizing num with
  | zero =>
    have hzero : num.toNat = 0 := by omega
    rw [hzero, Nat.digits_zero]
    rfl
  | succ n ih =>
    rw [divDigits]
    by_cases hnum : num = 0
    · rw [if_pos hnum, hnum]
      simp
    · have hpos : 0 < num.toNat := by
        refine Nat.pos_of_ne_zero fun hzero => hnum ?_
        exact UInt64.toNat_inj.1 hzero
      have hlt : num.toNat / base < 2 ^ 64 := (Nat.div_le_self _ _).trans_lt num.toNat_lt
      have hdiv : (UInt64.ofNat (num.toNat / base)).toNat = num.toNat / base :=
        UInt64.toNat_ofNat_of_lt' hlt
      have hhalf : num.toNat / base < 2 ^ n := by
        rw [Nat.div_lt_iff_lt_mul (by omega)]
        calc num.toNat < 2 ^ n * 2 := by rwa [← pow_succ]
          _ ≤ 2 ^ n * base := Nat.mul_le_mul_left _ hbase
      rw [if_neg hnum, ih (by rwa [hdiv]), hdiv, Nat.digits_def' hbase hpos, List.map_cons]

/-- The loop over the digits. -/
theorem tmp_eq (large : Bool) {base : ℕ} (hbase : 1 < base) (num : UInt64) :
    (if num = 0 then [0x30]
      else divDigits (if large then largeDigits else smallDigits) base 66 num).reverse =
      digitsText large base num.toNat := by
  rw [digitsText]
  by_cases hnum : num = 0
  · rw [if_pos hnum, hnum, if_pos (by rfl), List.reverse_singleton]
  · have hne : num.toNat ≠ 0 := fun hzero => hnum (UInt64.toNat_inj.1 hzero)
    rw [if_neg hnum, if_neg hne, divDigits_eq _ hbase (num.toNat_lt.trans (by norm_num))]

/-- The sign that is put, 0 for none, and what is left of the width. -/
theorem sign_eq (flags : Flags) (num : UInt64) (size : Int) :
    (if flags.sign then
      if 0x8000000000000000 ≤ num then ((0x2d : UInt8), -num, size - 1)
      else if flags.plus then (0x2b, num, size - 1)
      else if flags.space then (0x20, num, size - 1)
      else (0, num, size)
    else (0, num, size)) =
      ((signText flags num).1.headD 0, (signText flags num).2,
        size - (signText flags num).1.length) := by
  unfold signText
  split_ifs
  all_goals simp

/-- The sign is written if there is one. -/
theorem put_sign (stop : ℕ) (flags : Flags) (num : UInt64) (o : Out UInt8) :
    (if (signText flags num).1.headD 0 ≠ 0 then put stop ((signText flags num).1.headD 0) o
      else o) = puts stop (signText flags num).1 o := by
  have hsign : (signText flags num).1 = [] ∨ (signText flags num).1 = [0x2d] ∨
      (signText flags num).1 = [0x2b] ∨ (signText flags num).1 = [0x20] := by
    unfold signText
    split_ifs
    all_goals simp
  rcases hsign with hsign | hsign | hsign | hsign
  · rw [hsign]
    exact if_neg (by decide)
  all_goals
    rw [hsign]
    exact if_pos (by decide)

/-- The prefix, and what is left of the width. -/
theorem prefix_size (flags : Flags) (base : ℕ) (size : Int) :
    (if flags.special then if base = 16 then size - 2 else if base = 8 then size - 1 else size
      else size) = size - (prefixText flags base).length := by
  unfold prefixText
  split_ifs
  all_goals simp

/-- Digit 33 is the letter `x` of the prefix. -/
theorem digit_x (large : Bool) :
    (if large then largeDigits else smallDigits).getD 33 0 = if large then 0x58 else 0x78 := by
  cases large <;> decide

/-- The prefix is written: `0` for octal, `0x` for hexadecimal. -/
theorem put_prefix (stop : ℕ) (flags : Flags) (base : ℕ) (o : Out UInt8) :
    (if flags.special then
      if base = 8 then put stop 0x30 o
      else if base = 16 then
        put stop ((if flags.large then largeDigits else smallDigits).getD 33 0) (put stop 0x30 o)
      else o
    else o) = puts stop (prefixText flags base) o := by
  rw [digit_x, prefixText]
  by_cases hspecial : flags.special
  · rw [if_pos hspecial, if_pos hspecial]
    by_cases h8 : base = 8
    · rw [if_pos h8, if_neg (by omega), if_pos h8]
      rfl
    · rw [if_neg h8]
      split_ifs
      · rfl
      · rfl
      · rfl
  · rw [if_neg hspecial, if_neg hspecial, puts_nil]

/-- The padding loop writes as many characters as are left of the width. -/
theorem padWhile_eq (stop : ℕ) (c : UInt8) (size : Int) (o : Out UInt8) :
    padWhile stop c size o = (min size 0 - 1, puts stop (repeated c size) o) :=
  putWhile_eq stop c le_rfl o

/-- No character is written where none is left. -/
theorem repeated_of_nonpos (c : UInt8) {n : Int} (h : n ≤ 0) : repeated c n = [] := by
  rw [repeated, Int.toNat_of_nonpos h, List.replicate_zero]

/-- As many characters are written as are left. -/
@[simp] theorem length_repeated (c : UInt8) (n : Int) : (repeated c n).length = n.toNat :=
  List.length_replicate

/-- **`number` prints the text of the number.** -/
theorem number_eq (stop : ℕ) (o : Out UInt8) (num : UInt64) {base : ℕ} (hbase : 2 ≤ base)
    (hle : base ≤ 36) (width precision : Int) (flags : Flags) :
    number stop o num base width precision flags =
      puts stop (numberText num base width precision flags) o := by
  have hin : ¬(base < 2 ∨ 36 < base) := by omega
  have htmp := tmp_eq flags.large (by omega : 1 < base) (signText flags num).2
  generalize hdigits : (if (signText flags num).2 = 0 then [0x30] else divDigits
    (if flags.large then largeDigits else smallDigits) base 66 (signText flags num).2) = tmp at htmp
  -- the number of digits, and of the zeros before them
  have hprecision : (if precision < tmp.length then (tmp.length : Int) else precision) =
      ((repeated 0x30 (precision - tmp.reverse.length) ++ tmp.reverse).length : Int) := by
    rw [List.length_append, length_repeated, List.length_reverse]
    split_ifs
    · omega
    · omega
  have hzeros : repeated 0x30
      ((repeated 0x30 (precision - tmp.reverse.length) ++ tmp.reverse).length - tmp.length : Int) =
      repeated 0x30 (precision - tmp.reverse.length) := by
    rw [List.length_append, length_repeated, repeated, repeated, List.length_reverse]
    congr 1
    omega
  have hblanks : width - (signText flags num).1.length - (prefixText flags base).length -
      ((repeated 0x30 (precision - tmp.reverse.length) ++ tmp.reverse).length : Int) =
      width - ((signText flags num).1 ++ prefixText flags base ++
        (repeated 0x30 (precision - tmp.reverse.length) ++ tmp.reverse)).length := by
    simp only [List.length_append, Nat.cast_add]
    omega
  have hlast (size : Int) : repeated 0x20 (min size 0 - 1) = [] := repeated_of_nonpos _ (by omega)
  rw [number, numberText]
  by_cases hleft : flags.left
  · simp only [hleft, or_true, if_true, if_neg hin, sign_eq, put_sign, prefix_size, put_prefix,
      hdigits, ← htmp, hprecision, padWhile_eq, hzeros, hblanks, puts_append]
  · by_cases hzeropad : flags.zeropad
    · simp only [hleft, hzeropad, Bool.false_eq_true, true_or, if_true, if_false, if_neg hin,
        sign_eq, put_sign, prefix_size, put_prefix, hdigits, ← htmp, hprecision, padWhile_eq,
        hzeros, hblanks, hlast, puts_append, puts_nil]
    · simp only [hleft, hzeropad, Bool.false_eq_true, or_self, if_false, if_neg hin, sign_eq,
        put_sign, prefix_size, put_prefix, hdigits, ← htmp, hprecision, padWhile_eq, hzeros,
        hblanks, hlast, puts_append, puts_nil]

/-! ### Formats -/

/-- **A width or a precision**: a number in the format, or `*` for the next argument. -/
inductive Amount
  | lit (n : ℕ)
  | arg
  deriving DecidableEq, Repr

/-- **A conversion of a format**, taken apart: flags, width, precision, qualifier and
letter. It has no letter if the format ends before it. -/
structure Conversion where
  flags : Flags
  width : Option Amount
  precision : Option (Option Amount)
  qualifier : UInt8
  char : Option UInt8
  deriving DecidableEq, Repr

/-- A piece of a format: a character to copy, or a conversion. -/
inductive Piece
  | char (c : UInt8)
  | conversion (conv : Conversion)
  deriving DecidableEq, Repr

/-- A width or a precision in a format: digits, or `*` for an argument. -/
def parseAmount : List UInt8 → Option Amount × List UInt8
  | [] => (none, [])
  | c :: fmt =>
      if isdigit c then (some (.lit (skipAtoi 0 (c :: fmt)).1), (skipAtoi 0 (c :: fmt)).2)
      else if c = 0x2a then (some .arg, fmt)
      else (none, c :: fmt)

/-- A precision in a format, behind its period. -/
def parsePrecision : List UInt8 → Option (Option Amount) × List UInt8
  | [] => (none, [])
  | c :: fmt =>
      if c = 0x2e then (some (parseAmount fmt).1, (parseAmount fmt).2) else (none, c :: fmt)

/-- The conversion behind a `%`, and what is left of the format. -/
def parseConversion (fmt : List UInt8) : Conversion × List UInt8 :=
  let (flags, fmt) := scanFlags {} fmt
  let (width, fmt) := parseAmount fmt
  let (precision, fmt) := parsePrecision fmt
  let (qualifier, fmt) := scanQualifier fmt
  (⟨flags, width, precision, qualifier, fmt.head?⟩, fmt.tail)

/-- Reading digits makes the format no longer. -/
theorem length_skipAtoi (i : ℕ) (fmt : List UInt8) : (skipAtoi i fmt).2.length ≤ fmt.length := by
  induction fmt generalizing i with
  | nil => exact le_rfl
  | cons c fmt ih =>
    rw [skipAtoi]
    split_ifs
    · exact (ih _).trans (Nat.le_succ _)
    · exact le_rfl

/-- Reading flags makes the format no longer. -/
theorem length_scanFlags (flags : Flags) (fmt : List UInt8) :
    (scanFlags flags fmt).2.length ≤ fmt.length := by
  induction fmt generalizing flags with
  | nil => exact le_rfl
  | cons c fmt ih =>
    rw [scanFlags]
    split_ifs
    any_goals exact (ih _).trans (Nat.le_succ _)
    exact le_rfl

/-- Reading a width makes the format no longer. -/
theorem length_parseAmount (fmt : List UInt8) : (parseAmount fmt).2.length ≤ fmt.length := by
  cases fmt with
  | nil => exact le_rfl
  | cons c fmt =>
    rw [parseAmount]
    split_ifs
    · exact length_skipAtoi 0 _
    · exact Nat.le_succ _
    · exact le_rfl

/-- Reading a precision makes the format no longer. -/
theorem length_parsePrecision (fmt : List UInt8) :
    (parsePrecision fmt).2.length ≤ fmt.length := by
  cases fmt with
  | nil => exact le_rfl
  | cons c fmt =>
    rw [parsePrecision]
    split_ifs
    · exact (length_parseAmount fmt).trans (Nat.le_succ _)
    · exact le_rfl

/-- Reading a qualifier makes the format no longer. -/
theorem length_scanQualifier (fmt : List UInt8) :
    (scanQualifier fmt).2.length ≤ fmt.length := by
  cases fmt with
  | nil => exact le_rfl
  | cons c fmt =>
    rw [scanQualifier]
    split_ifs
    · rw [List.length_tail, List.length_cons]
      omega
    · exact Nat.le_succ _
    · exact le_rfl

/-- Reading a conversion makes the format no longer. -/
theorem length_parseConversion (fmt : List UInt8) :
    (parseConversion fmt).2.length ≤ fmt.length := by
  have hflags := length_scanFlags {} fmt
  have hwidth := length_parseAmount (scanFlags {} fmt).2
  have hprecision := length_parsePrecision (parseAmount (scanFlags {} fmt).2).2
  have hqualifier :=
    length_scanQualifier (parsePrecision (parseAmount (scanFlags {} fmt).2).2).2
  rw [parseConversion]
  dsimp only
  rw [List.length_tail]
  omega

/-- The pieces of a format. -/
def parseFormat : List UInt8 → List Piece
  | [] => []
  | c :: fmt =>
      if c ≠ 0x25 then .char c :: parseFormat fmt
      else .conversion (parseConversion fmt).1 :: parseFormat (parseConversion fmt).2
  termination_by fmt => fmt.length
  decreasing_by
    · exact Nat.lt_succ_self _
    · exact Nat.lt_succ_of_le (length_parseConversion fmt)

/-- **A text under way**: the text so far, the next argument, and what `%n` has stored. -/
structure Rendered where
  text : List UInt8
  next : ℕ
  counts : List Count

/-- The base of an integer, and its flags. -/
def integerBase (flags : Flags) (c : UInt8) : Option (ℕ × Flags) :=
  if c = 0x6f then some (8, flags)
  else if c = 0x58 then some (16, { flags with large := true })
  else if c = 0x78 then some (16, flags)
  else if c = 0x64 ∨ c = 0x69 then some (10, { flags with sign := true })
  else if c = 0x75 then some (10, flags)
  else none

/-- A text with blanks on the left or on the right. -/
def padded (left : Bool) (blanks : Int) (text : List UInt8) : List UInt8 :=
  if left then text ++ repeated 0x20 blanks else repeated 0x20 blanks ++ text

section

variable (strings : UInt64 → List UInt8) (args : ℕ → UInt64)

/-- The value of a width or a precision, and which argument comes next. -/
def Amount.value (next : ℕ) : Amount → Int × ℕ
  | .lit n => (n, next)
  | .arg => (intArg (args next), next + 1)

/-- The text of one conversion. -/
def renderChar (flags : Flags) (width precision : Int) (qualifier : UInt8)
    (char : Option UInt8) (r : Rendered) : Rendered :=
  let slot := args r.next
  let prints (text : List UInt8) : Rendered := { r with text := r.text ++ text }
  let takes (text : List UInt8) : Rendered := { prints text with next := r.next + 1 }
  match char with
  | none => prints [0x25]
  | some c =>
      if c = 0x63 then takes (padded flags.left (width - 1) [slot.toUInt8])
      else if c = 0x73 then
        let str := if slot < 4096 then ascii "<NULL>" else strings slot
        takes (padded flags.left (width - strLen str precision)
          (str.take (strLen str precision).toNat))
      else if c = 0x70 then
        takes (if width = -1 then numberText slot 16 16 precision { flags with zeropad := true }
          else numberText slot 16 width precision flags)
      else if c = 0x6e then
        let count : Count :=
          if qualifier = 0x6c ∨ qualifier = 0x5a ∨ qualifier = 0x7a then
            ⟨slot, 8, r.text.length⟩
          else ⟨slot, 4, r.text.length % 2 ^ 32⟩
        { r with next := r.next + 1, counts := r.counts ++ [count] }
      else if c = 0x25 then prints [0x25]
      else
        match integerBase flags c with
        | some (base, flags) =>
            takes (numberText (numArg qualifier flags.sign slot) base width precision flags)
        | none => prints [0x25, c]

/-- The width of a conversion, with the flags; `-1` for none. -/
def Conversion.widthOf (conv : Conversion) (next : ℕ) : Int × Flags × ℕ :=
  match conv.width with
  | none => (-1, conv.flags, next)
  | some a =>
      let (width, next) := a.value args next
      if width < 0 then (-width, { conv.flags with left := true }, next)
      else (width, conv.flags, next)

/-- The precision of a conversion; `-1` for none. -/
def Conversion.precisionOf (conv : Conversion) (next : ℕ) : Int × ℕ :=
  match conv.precision with
  | none => (-1, next)
  | some none => (0, next)
  | some (some a) => (max (a.value args next).1 0, (a.value args next).2)

/-- The text of a piece, behind the text so far. -/
def Piece.render (r : Rendered) : Piece → Rendered
  | .char c => { r with text := r.text ++ [c] }
  | .conversion conv =>
      let (width, flags, next) := conv.widthOf args r.next
      let (precision, next) := conv.precisionOf args next
      renderChar strings args flags width precision conv.qualifier conv.char { r with next := next }

/-- The text of a format, and what `%n` stores. -/
def formatText (fmt : List UInt8) : Rendered :=
  (parseFormat fmt).foldl (Piece.render strings args) ⟨[], 0, []⟩

end

/-! ### The loop -/

/-- What the loop has when the text so far is that of `r`. -/
def formatOf (stop : ℕ) (o : Out UInt8) (r : Rendered) : Format :=
  ⟨puts stop r.text o, r.next, r.counts⟩

section

variable {buf stop : ℕ} {strings : UInt64 → List UInt8} {args : ℕ → UInt64} {o : Out UInt8}

/-- A text with blanks on one side. -/
theorem puts_padded (stop : ℕ) (left : Bool) (size : Int) (text : List UInt8) (o : Out UInt8) :
    (padWhile stop 0x20 (if left then (size, o) else padWhile stop 0x20 size o).1
      (puts stop text (if left then (size, o) else padWhile stop 0x20 size o).2)).2 =
      puts stop (padded left size text) o := by
  cases left
  · simp only [Bool.false_eq_true, if_false, padded, padWhile_eq, puts_append]
    rw [repeated_of_nonpos _ (by omega), puts_nil]
  · simp only [if_true, padded, padWhile_eq, puts_append]

/-- **The `switch` prints the text of the conversion.** -/
theorem convert_eq (ho : o.pos = buf) (flags : Flags) (width precision : Int) (qualifier : UInt8)
    (fmt : List UInt8) (r : Rendered) :
    convert buf stop strings args flags width precision qualifier fmt (formatOf stop o r) =
      (formatOf stop o
        (renderChar strings args flags width precision qualifier fmt.head? r), fmt.tail) := by
  cases fmt with
  | nil =>
    rw [convert, List.head?_nil, renderChar, formatOf, formatOf, puts_append]
    rfl
  | cons c fmt =>
    have hpos : (puts stop r.text o).pos - buf = r.text.length := by
      rw [pos_puts, ho, Nat.add_sub_cancel_left]
    rw [convert, List.head?_cons, List.tail_cons, renderChar]
    dsimp only [formatOf]
    by_cases hc : c = 0x63
    · rw [if_pos hc, if_pos hc, puts_append, ← puts_padded]
      rfl
    rw [if_neg hc, if_neg hc]
    by_cases hs : c = 0x73
    · rw [if_pos hs, if_pos hs, puts_append, ← puts_padded]
    rw [if_neg hs, if_neg hs]
    by_cases hp : c = 0x70
    · rw [if_pos hp, if_pos hp, puts_append]
      split_ifs
      · rw [number_eq _ _ _ (by decide) (by decide)]
      · rw [number_eq _ _ _ (by decide) (by decide)]
    rw [if_neg hp, if_neg hp]
    by_cases hn : c = 0x6e
    · rw [if_pos hn, if_pos hn, hpos]
    rw [if_neg hn, if_neg hn]
    by_cases hpercent : c = 0x25
    · rw [if_pos hpercent, if_pos hpercent, puts_append]
      rfl
    rw [if_neg hpercent, if_neg hpercent, integerBase]
    split_ifs
    all_goals dsimp only
    all_goals rw [puts_append]
    any_goals rw [number_eq _ _ _ (by decide) (by decide)]
    rfl

/-- The width the code reads is the conversion's. -/
theorem fieldWidth_eq (flags : Flags) (fmt : List UInt8) (conv : Conversion) (next : ℕ)
    (hflags : conv.flags = flags) (hwidth : conv.width = (parseAmount fmt).1) :
    fieldWidth args flags fmt next =
      ((conv.widthOf args next).1, (conv.widthOf args next).2.1, (parseAmount fmt).2,
        (conv.widthOf args next).2.2) := by
  rw [Conversion.widthOf, hwidth, hflags]
  cases fmt with
  | nil => rfl
  | cons c fmt =>
    rw [fieldWidth, parseAmount]
    split_ifs with hdigit harg
    · dsimp only [Amount.value]
      rw [if_neg (by omega)]
    · dsimp only [Amount.value]
      split_ifs
      · rfl
      · rfl
    · rfl

/-- The precision the code reads is the conversion's. -/
theorem scanPrecision_eq (fmt : List UInt8) (conv : Conversion) (next : ℕ)
    (hprecision : conv.precision = (parsePrecision fmt).1) :
    scanPrecision args fmt next =
      ((conv.precisionOf args next).1, (parsePrecision fmt).2, (conv.precisionOf args next).2) := by
  have hmax (n : Int) : (if n < 0 then 0 else n) = max n 0 := by
    split_ifs
    · rw [max_eq_right (by omega)]
    · rw [max_eq_left (by omega)]
  rw [Conversion.precisionOf, hprecision]
  cases fmt with
  | nil => rfl
  | cons c fmt =>
    rw [scanPrecision, parsePrecision]
    by_cases hdot : c = 0x2e
    · rw [if_pos hdot, if_pos hdot]
      cases fmt with
      | nil => rfl
      | cons c fmt =>
        simp only [parseAmount, List.head?_cons, Option.map_some, Option.getD_some,
          Option.some_inj, hmax]
        split_ifs
        · rfl
        · rfl
        · rfl
    · rw [if_neg hdot, if_neg hdot]

/-- **A conversion is read and printed.** -/
theorem directive_eq (ho : o.pos = buf) (fmt : List UInt8) (r : Rendered) :
    directive buf stop strings args fmt (formatOf stop o r) =
      (formatOf stop o ((Piece.conversion (parseConversion fmt).1).render strings args r),
        (parseConversion fmt).2) := by
  have hwidth (next : ℕ) : fieldWidth args (scanFlags {} fmt).1 (scanFlags {} fmt).2 next = _ :=
    fieldWidth_eq _ _ (parseConversion fmt).1 next rfl rfl
  have hprecision (next : ℕ) :
      scanPrecision args (parseAmount (scanFlags {} fmt).2).2 next = _ :=
    scanPrecision_eq _ (parseConversion fmt).1 next rfl
  rw [directive]
  dsimp only
  rw [show (formatOf stop o r).next = r.next from rfl, hwidth]
  dsimp only
  rw [hprecision]
  have hnext (next : ℕ) : ({ formatOf stop o r with next := next } : Format) =
      formatOf stop o { r with next := next } := rfl
  rw [hnext, convert_eq ho]
  rfl

/-- **The loop prints the text of the pieces.** -/
theorem formatFrom_eq (ho : o.pos = buf) {n : ℕ} {fmt : List UInt8} (hn : fmt.length ≤ n)
    (r : Rendered) :
    formatFrom buf stop strings args n fmt (formatOf stop o r) =
      formatOf stop o ((parseFormat fmt).foldl (Piece.render strings args) r) := by
  induction n generalizing fmt r with
  | zero =>
    rw [List.eq_nil_of_length_eq_zero (Nat.le_zero.1 hn), parseFormat]
    rfl
  | succ n ih =>
    cases fmt with
    | nil =>
      rw [parseFormat]
      rfl
    | cons c fmt =>
      have hle : fmt.length ≤ n := Nat.le_of_succ_le_succ hn
      rw [formatFrom, parseFormat]
      by_cases hc : c ≠ 0x25
      · rw [if_pos hc, if_pos hc, List.foldl_cons, ← ih hle]
        rw [Piece.render, formatOf, formatOf, puts_append]
        rfl
      · rw [if_neg hc, if_neg hc, List.foldl_cons, directive_eq ho]
        exact ih ((length_parseConversion fmt).trans hle) _

end

/-- What is stored of a text, with its NUL, in a buffer that ends at `stop`. -/
theorem terminate_eq (mem : Mem) (buf stop : ℕ) (text : List UInt8) :
    (if 0 < stop - buf then
      if buf + text.length < stop then
        Function.update (puts stop text ⟨mem, buf⟩).mem (buf + text.length) 0
      else Function.update (puts stop text ⟨mem, buf⟩).mem (stop - 1) 0
    else (puts stop text ⟨mem, buf⟩).mem) = (Hvf.vsnprintf mem buf ↑(stop - buf) text).1 := by
  funext i
  have hneg : ¬((stop - buf : ℕ) : Int) < 0 := by omega
  rw [Hvf.vsnprintf, if_neg hneg]
  by_cases hzero : stop - buf = 0
  · have hnone : ¬(buf ≤ i ∧ i < stop) := by omega
    rw [if_neg (show ¬0 < stop - buf by omega), if_pos (show ((stop - buf : ℕ) : Int) = 0 by omega),
      mem_puts, if_neg hnone]
  obtain ⟨size, rfl⟩ := Nat.exists_eq_add_of_le (show buf ≤ stop by omega)
  rw [Nat.add_sub_cancel_left] at hzero ⊢
  rw [if_pos (show 0 < size by omega), if_neg (show ¬(size : Int) = 0 by omega)]
  dsimp only
  rw [Int.toNat_natCast]
  -- where the NUL is
  have hnul : (if buf + text.length < buf + size then
        Function.update (puts (buf + size) text ⟨mem, buf⟩).mem (buf + text.length) 0
      else Function.update (puts (buf + size) text ⟨mem, buf⟩).mem (buf + size - 1) 0) =
      Function.update (puts (buf + size) text ⟨mem, buf⟩).mem
        (buf + min (size - 1) text.length) 0 := by
    split_ifs
    · rw [min_eq_right (by omega)]
    · rw [min_eq_left (by omega), Nat.add_sub_assoc (by omega)]
  rw [hnul]
  by_cases hi : i = buf + min (size - 1) text.length
  · rw [hi, Function.update_self, if_neg (by omega), if_pos rfl]
  · rw [Function.update_of_ne hi, if_neg hi, mem_puts]
    dsimp only
    by_cases htext : buf ≤ i ∧ i < buf + min (size - 1) text.length
    · rw [if_pos htext, if_pos ⟨htext.1, by omega⟩, List.getD_eq_getElem _ _ (by omega),
        List.getD_eq_getElem _ _ (by omega)]
    · rw [if_neg htext]
      split_ifs
      · exact List.getD_eq_default _ _ (by omega)
      · rfl

/-- **`vsnprintf` does what is said of it.**  It prints the text of its format: as much of it
as fits is stored, with a NUL behind it, nothing else is, and the length of the whole is
returned; `%n` stores the length of the text before it.  A size that is negative as an `int` is
refused, and a buffer that goes over the end of the addresses is taken to end there. -/
theorem vsnprintf_text (mem : Mem) (buf size : ℕ) (strings : UInt64 → List UInt8)
    (fmt : List UInt8) (args : ℕ → UInt64) :
    vsnprintf mem buf size strings fmt args =
      if Int.bmod size (2 ^ 32) < 0 then (mem, 0, [])
      else ((Hvf.vsnprintf mem buf ↑(endOf buf size - buf) (formatText strings args fmt).text).1,
        (Hvf.vsnprintf mem buf ↑(endOf buf size - buf) (formatText strings args fmt).text).2,
        (formatText strings args fmt).counts) := by
  unfold vsnprintf
  by_cases hneg : Int.bmod size (2 ^ 32) < 0
  · rw [if_pos hneg, if_pos hneg]
  rw [if_neg hneg, if_neg hneg]
  dsimp only
  generalize endOf buf size = stop
  have hrun : formatFrom buf stop strings args fmt.length fmt ⟨⟨mem, buf⟩, 0, []⟩ =
      formatOf stop ⟨mem, buf⟩ (formatText strings args fmt) :=
    formatFrom_eq (o := ⟨mem, buf⟩) rfl le_rfl ⟨[], 0, []⟩
  rw [hrun]
  generalize formatText strings args fmt = r
  have hpos : (puts stop r.text ⟨mem, buf⟩).pos = buf + r.text.length := pos_puts
  rw [formatOf]
  dsimp only
  have hret : (Hvf.vsnprintf mem buf ↑(stop - buf) r.text).2 =
      Int.bmod r.text.length (2 ^ 32) := by
    rw [Hvf.vsnprintf, if_neg (show ¬((stop - buf : ℕ) : Int) < 0 by omega)]
    by_cases hzero : ((stop - buf : ℕ) : Int) = 0
    · rw [if_pos hzero]
      dsimp only [int32]
    · rw [if_neg hzero]
      dsimp only [int32]
  rw [hpos, Nat.add_sub_cancel_left, terminate_eq, hret]

/-- `"%02d:%02d:%02d "`, and what is cut off. -/
example : (List.range 8).map (vsnprintf (fun _ => 0xFF) 0 7 (fun _ => [])
    (ascii "%02d:%02d:%02d ") fun k => UInt64.ofNat (9 + k)).1 =
      ascii "09:10:" ++ [0, 0xFF] := by
  decide +kernel

end Hvf.Vsprintf
