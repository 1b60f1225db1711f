/-
# Formatting

`number`, `skip_atoi` and `vsnprintf` of `lib/vsprintf.c`.  A format is the list of its
characters up to the NUL; the arguments are the 64-bit slots that `va_arg` takes one by one,
and `strings` are the characters at a pointer, up to their NUL.  What `%n` stores is listed
with the number of its bytes; the buffer is not among what the arguments point to.  A buffer
that would go over the end of the 64-bit addresses ends there (`endOf`).

An `int` is taken exactly, as C gives an overflow no meaning, and so is the place behind the
text: what is printed does not go round to address 0.
-/

import Hvf.CString
import Hvf.Lib.Bytes
import Hvf.Lib.Sink

namespace Hvf.Vsprintf

open Bytes Sink

/-- **The flags of a conversion**: `ZEROPAD`, `SIGN`, `PLUS`, `SPACE`, `LEFT`, `SPECIAL` and
`LARGE`, some from the format, some from its letter. -/
structure Flags where
  zeropad : Bool := false
  sign : Bool := false
  plus : Bool := false
  space : Bool := false
  left : Bool := false
  special : Bool := false
  large : Bool := false
  deriving DecidableEq, Repr

/-- `small_digits` and `large_digits`. -/
def smallDigits : List UInt8 := ascii "0123456789abcdefghijklmnopqrstuvwxyz"

/-- `large_digits`: the digits of numbers printed with capital letters. -/
def largeDigits : List UInt8 := ascii "0123456789ABCDEFGHIJKLMNOPQRSTUVWXYZ"

/-- What the loop over `do_div` puts into `tmp`, the last digit first, in at most `n` rounds. -/
def divDigits (digits : List UInt8) (base : ℕ) : ℕ → UInt64 → List UInt8
  | 0, _ => []
  | n + 1, num =>
      if num = 0 then []
      else digits.getD (num.toNat % base) 0 ::
        divDigits digits base n (UInt64.ofNat (num.toNat / base))

/-- `while (size-- > 0)`, with `c` in each round. -/
def padWhile (stop : ℕ) (c : UInt8) (size : Int) (o : Out UInt8) : Int × Out UInt8 :=
  putWhile stop c size.toNat size o

/-- `number`, with `stop` for `end`. -/
def number (stop : ℕ) (o : Out UInt8) (num : UInt64) (base : ℕ) (size precision : Int)
    (type : Flags) : Out UInt8 :=
  let digits := if type.large then largeDigits else smallDigits
  let type := if type.left then { type with zeropad := false } else type
  if base < 2 ∨ 36 < base then { o with pos := 0 }
  else
    let c : UInt8 := if type.zeropad then 0x30 else 0x20
    let (sign, num, size) : UInt8 × UInt64 × Int :=
      if type.sign then
        if 0x8000000000000000 ≤ num then (0x2d, -num, size - 1)
        else if type.plus then (0x2b, num, size - 1)
        else if type.space then (0x20, num, size - 1)
        else (0, num, size)
      else (0, num, size)
    let size :=
      if type.special then if base = 16 then size - 2 else if base = 8 then size - 1 else size
      else size
    let tmp := if num = 0 then [0x30] else divDigits digits base 66 num
    let precision : Int := if precision < tmp.length then tmp.length else precision
    let size := size - precision
    let (size, o) :=
      if type.zeropad ∨ type.left then (size, o) else padWhile stop 0x20 size o
    let o := if sign ≠ 0 then put stop sign o else o
    let o :=
      if type.special then
        if base = 8 then put stop 0x30 o
        else if base = 16 then put stop (digits.getD 33 0) (put stop 0x30 o)
        else o
      else o
    let (size, o) := if type.left then (size, o) else padWhile stop c size o
    -- `while (i < precision--)`
    let (_, o) := padWhile stop 0x30 (precision - tmp.length) o
    let o := puts stop tmp.reverse o
    (padWhile stop 0x20 size o).2

/-- `isdigit`. -/
def isdigit (c : UInt8) : Bool := 0x30 ≤ c ∧ c ≤ 0x39

/-- `skip_atoi`, from `i` on: the number and the pointer. -/
def skipAtoi : ℕ → List UInt8 → ℕ × List UInt8
  | i, [] => (i, [])
  | i, c :: fmt => if isdigit c then skipAtoi (i * 10 + (c - 0x30).toNat) fmt else (i, c :: fmt)

/-- The flags behind a `%`. -/
def scanFlags : Flags → List UInt8 → Flags × List UInt8
  | flags, [] => (flags, [])
  | flags, c :: fmt =>
      if c = 0x2d then scanFlags { flags with left := true } fmt
      else if c = 0x2b then scanFlags { flags with plus := true } fmt
      else if c = 0x20 then scanFlags { flags with space := true } fmt
      else if c = 0x23 then scanFlags { flags with special := true } fmt
      else if c = 0x30 then scanFlags { flags with zeropad := true } fmt
      else (flags, c :: fmt)

/-- The qualifier: 0 if there is none. -/
def scanQualifier : List UInt8 → UInt8 × List UInt8
  | [] => (0, [])
  | c :: fmt =>
      -- `h`, `l`, `L`, `Z`, `z` and `t`; `ll` is `L`
      if c = 0x68 ∨ c = 0x6c ∨ c = 0x4c ∨ c = 0x5a ∨ c = 0x7a ∨ c = 0x74 then
        if c = 0x6c ∧ fmt.head? = some 0x6c then (0x4c, fmt.tail) else (c, fmt)
      else (0, c :: fmt)

/-- `va_arg` of an `int`. -/
def intArg (slot : UInt64) : Int := slot.toUInt32.toInt32.toInt

/-- `va_arg` of a number, for `number`. -/
def numArg (qualifier : UInt8) (sign : Bool) (slot : UInt64) : UInt64 :=
  if qualifier = 0x4c ∨ qualifier = 0x6c ∨ qualifier = 0x5a ∨ qualifier = 0x7a ∨ qualifier = 0x74
  then slot
  else if qualifier = 0x68 then
    if sign then slot.toUInt16.toInt16.toInt64.toUInt64 else slot.toUInt16.toUInt64
  else if sign then slot.toUInt32.toInt32.toInt64.toUInt64 else slot.toUInt32.toUInt64

/-- **What `%n` stores**: the length so far, through the argument's pointer, in as many
bytes as the qualifier says. -/
structure Count where
  ptr : UInt64
  bytes : ℕ
  val : ℕ
  deriving DecidableEq, Repr

/-- **The state of the loop over the format**: what was put, which argument is next, and
what `%n` has stored. -/
structure Format where
  out : Out UInt8
  next : ℕ
  counts : List Count

/-- `len` of a string: what `strnlen` returns, as an `int`. -/
def strLen (s : List UInt8) (precision : Int) : Int :=
  let count := (Int.emod precision (2 ^ 64)).toNat
  Int.bmod (min count s.length : ℕ) (2 ^ 32)

section

variable (buf stop : ℕ) (strings : UInt64 → List UInt8) (args : ℕ → UInt64)

/-- The field width: `-1` if there is none. -/
def fieldWidth (flags : Flags) (fmt : List UInt8) (next : ℕ) :
    Int × Flags × List UInt8 × ℕ :=
  match fmt with
  | [] => (-1, flags, [], next)
  | c :: rest =>
      if isdigit c then
        let (i, fmt) := skipAtoi 0 fmt
        (i, flags, fmt, next)
      else if c = 0x2a then
        let width := intArg (args next)
        if width < 0 then (-width, { flags with left := true }, rest, next + 1)
        else (width, flags, rest, next + 1)
      else (-1, flags, fmt, next)

/-- The precision: `-1` if there is none. -/
def scanPrecision (fmt : List UInt8) (next : ℕ) : Int × List UInt8 × ℕ :=
  match fmt with
  | [] => (-1, [], next)
  | c :: fmt =>
      if c = 0x2e then
        let (precision, fmt, next) : Int × List UInt8 × ℕ :=
          if (fmt.head?.map isdigit).getD false then
            let (i, fmt) := skipAtoi 0 fmt
            (i, fmt, next)
          else if fmt.head? = some 0x2a then (intArg (args next), fmt.tail, next + 1)
          else (-1, fmt, next)
        (if precision < 0 then 0 else precision, fmt, next)
      else (-1, c :: fmt, next)

/-- The `switch` over the character of the conversion, up to the next round of the loop: what
is left of the format too. -/
def convert (flags : Flags) (width precision : Int) (qualifier : UInt8) (fmt : List UInt8)
    (s : Format) : Format × List UInt8 :=
  match fmt with
  | [] => ({ s with out := put stop 0x25 s.out }, [])
  | c :: fmt =>
      let integer (base : ℕ) (flags : Flags) : Format × List UInt8 :=
        let num := numArg qualifier flags.sign (args s.next)
        ({ s with out := number stop s.out num base width precision flags, next := s.next + 1 },
          fmt)
      -- `c`
      if c = 0x63 then
        let size := width - 1
        let (size, o) := if flags.left then (size, s.out) else padWhile stop 0x20 size s.out
        let o := put stop (args s.next).toUInt8 o
        ({ s with out := (padWhile stop 0x20 size o).2, next := s.next + 1 }, fmt)
      -- `s`
      else if c = 0x73 then
        let ptr := args s.next
        let str := if ptr < 4096 then ascii "<NULL>" else strings ptr
        let len := strLen str precision
        let size := width - len
        let (size, o) := if flags.left then (size, s.out) else padWhile stop 0x20 size s.out
        let o := puts stop (str.take len.toNat) o
        ({ s with out := (padWhile stop 0x20 size o).2, next := s.next + 1 }, fmt)
      -- `p`
      else if c = 0x70 then
        let (width, flags) : Int × Flags :=
          if width = -1 then (16, { flags with zeropad := true }) else (width, flags)
        ({ s with
            out := number stop s.out (args s.next) 16 width precision flags, next := s.next + 1 },
          fmt)
      -- `n`
      else if c = 0x6e then
        let val := s.out.pos - buf
        let count : Count :=
          if qualifier = 0x6c ∨ qualifier = 0x5a ∨ qualifier = 0x7a then ⟨args s.next, 8, val⟩
          else ⟨args s.next, 4, val % 2 ^ 32⟩
        ({ s with next := s.next + 1, counts := s.counts ++ [count] }, fmt)
      -- `%`
      else if c = 0x25 then ({ s with out := put stop 0x25 s.out }, fmt)
      -- `o`, `X`, `x`, `d` and `i`, `u`
      else if c = 0x6f then integer 8 flags
      else if c = 0x58 then integer 16 { flags with large := true }
      else if c = 0x78 then integer 16 flags
      else if c = 0x64 ∨ c = 0x69 then integer 10 { flags with sign := true }
      else if c = 0x75 then integer 10 flags
      else ({ s with out := put stop c (put stop 0x25 s.out) }, fmt)

/-- What is done behind a `%`. -/
def directive (fmt : List UInt8) (s : Format) : Format × List UInt8 :=
  let (flags, fmt) := scanFlags {} fmt
  let (width, flags, fmt, next) := fieldWidth args flags fmt s.next
  let (precision, fmt, next) := scanPrecision args fmt next
  let (qualifier, fmt) := scanQualifier fmt
  convert buf stop strings args flags width precision qualifier fmt { s with next := next }

/-- The loop over the format, in at most `n` rounds. -/
def formatFrom : ℕ → List UInt8 → Format → Format
  | 0, _, s => s
  | _ + 1, [], s => s
  | n + 1, c :: fmt, s =>
      if c ≠ 0x25 then formatFrom n fmt { s with out := put stop c s.out }
      else
        let (s, fmt) := directive buf stop strings args fmt s
        formatFrom n fmt s

end

/-- `end`.  Where `buf + size` is below `buf` it is the last address of all. -/
def endOf (buf size : ℕ) : ℕ := if 2 ^ 64 ≤ buf + size then 2 ^ 64 - 1 else buf + size

/-- **`vsnprintf`:** storage, what is returned, and what `%n` stores.  A size that is negative
as an `int` is refused, and one that is too large for the addresses is cut. -/
def vsnprintf (mem : Mem) (buf size : ℕ) (strings : UInt64 → List UInt8) (fmt : List UInt8)
    (args : ℕ → UInt64) : Mem × Int × List Count :=
  if Int.bmod size (2 ^ 32) < 0 then (mem, 0, [])
  else
    let stop := endOf buf size
    let size := stop - buf
    let s := formatFrom buf stop strings args fmt.length fmt ⟨⟨mem, buf⟩, 0, []⟩
    let mem :=
      if 0 < size then
        if s.out.pos < stop then Function.update s.out.mem s.out.pos 0
        else Function.update s.out.mem (stop - 1) 0
      else s.out.mem
    (mem, Int.bmod (s.out.pos - buf : ℕ) (2 ^ 32), s.counts)

end Hvf.Vsprintf
