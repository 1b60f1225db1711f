/-
# The cards that load the installer

`build/ccw_gen.c` generates the first cards of the install deck.  Card 0 has the IPL PSW,
a CCW that reads the next card and a transfer to it; then come the CCWs that read the
rest of the CCW cards, no-operations up to the end of a card, and the CCWs that read the
file.  The assembler makes bytes of them and `padcat` makes cards of the bytes, with the
file behind them.
-/

import Hvf.Installer.Mkarchive
import Hvf.Lib.CardReader

namespace Hvf

open CardReader

/-- **An address as three bytes**, `unsigned int addr[3]`, for that is how a format-0 CCW
has it. -/
structure CcwAddr where
  hi : ℕ
  mid : ℕ
  lo : ℕ

/-- `ADDR`. -/
def CcwAddr.val (x : CcwAddr) : ℕ := x.hi * 65536 + x.mid * 256 + x.lo

/-- **Each element is two hexadecimal digits**, so that the bytes printed are the address.
-/
structure CcwAddr.Digits (x : CcwAddr) : Prop where
  hi : x.hi < 256
  mid : x.mid < 256
  lo : x.lo < 256

/-- `__add`; `none` is the store in front of the array. -/
def _add (a : ℕ) (x : CcwAddr) : Option CcwAddr :=
  let lo := x.lo + a
  let (mid, lo) := if lo > 255 then (x.mid + lo / 256, lo % 256) else (x.mid, lo)
  let (hi, mid) := if mid > 255 then (x.hi + mid / 256, mid % 256) else (x.hi, mid)
  if hi > 255 then none else some ⟨hi, mid, lo⟩

/-- `ADDRS`, as bytes. -/
def CcwAddr.bytes (x : CcwAddr) : List UInt8 := [.ofNat x.hi, .ofNat x.mid, .ofNat x.lo]

/-- `CHAIN`. -/
def chainFlag : UInt8 := 0x40

/-- `psw_tail`: CP-CCW 1 and CP-CCW 2. -/
def pswTail (x : CcwAddr) : List UInt8 :=
  0x02 :: x.bytes ++ [chainFlag, 0x00, 0x00, 0x50] ++
    (0x08 :: x.bytes ++ [0x00, 0x00, 0x00, 0x00])

/-- `pad`. -/
def pad : List UInt8 := List.replicate 56 0x40

/-- `cp_ccw`. -/
def cpCcw (x : CcwAddr) : List UInt8 := 0x02 :: x.bytes ++ [0x40, 0x00, 0x00, 0x50]

/-- `data_ccw`. -/
def dataCcw (x : CcwAddr) (flags : UInt8) : List UInt8 :=
  0x02 :: x.bytes ++ [flags, 0x00, 0x00, 0x50]

/-- `nop_ccw`. -/
def nopCcw : List UInt8 := [0x03, 0x00, 0x00, 0x08, 0x60, 0x00, 0x00, 0x01]

/-- The loop that prints `n` CP-CCWs. -/
def cpCcws : ℕ → CcwAddr → Option (List (List UInt8))
  | 0, _ => some []
  | n + 1, x => do
      let rest ← cpCcws n (← _add 80 x)
      return cpCcw x :: rest

/-- The loop that prints the last `n` LOADER-CCWs. -/
def dataCcws : ℕ → CcwAddr → Option (List (List UInt8))
  | 0, _ => some []
  | n + 1, x => do
      let rest ← dataCcws n (← _add 80 x)
      return dataCcw x (if n = 0 then 0 else chainFlag) :: rest

/-- **What `main` of `ccw_gen` prints**: card 0 with the PSW and the first CCWs, and the
CCWs by kind. -/
structure CcwDeck where
  card : List UInt8
  cps : List (List UInt8)
  nops : List (List UInt8)
  loaders : List (List UInt8)

/-- How often the loop for the CP-CCWs goes round, from the number of data cards; it counts
with `unsigned int`. -/
def cpRounds (dataCards : ℕ) : ℕ :=
  ((dataCards + 9) / 10 + ((dataCards + 9) / 10 + 9) / 10 + (2 ^ 32 - 2)) % 2 ^ 32 + 1

/-- The size rounded up to cards. -/
def roundUp (size : ℕ) : ℕ :=
  if size % 80 ≠ 0 then (size - size % 80 + 80) % 2 ^ 32 else size

/-- `main`, from the words of the PSW, the file size and the two addresses; `none` where it
dies. -/
def ccwGen (psw : Fin 8 → UInt8) (filesize : ℕ) (addr ccwAddr : CcwAddr) : Option CcwDeck :=
  let size := filesize % 2 ^ 32
  if size = 0 then none
  else
    let dataCards := roundUp size / 80
    if dataCards = 1 then none
    else do
      let cps ← cpCcws (cpRounds dataCards) (← _add 80 ccwAddr)
      let nops := List.replicate ((10 - cpRounds dataCards % 10) % 10) nopCcw
      let loaders ← dataCcws dataCards addr
      return ⟨List.ofFn psw ++ pswTail ccwAddr ++ pad, cps, nops, loaders⟩

/-- The CCWs behind card 0. -/
def CcwDeck.ccws (g : CcwDeck) : List (List UInt8) := g.cps ++ g.nops ++ g.loaders

/-- The assembled cards. -/
def CcwDeck.bytes (g : CcwDeck) : List UInt8 := g.card ++ g.ccws.flatten

/-- The install deck: the generated cards, the file and the archive. -/
def CcwDeck.deck (g : CcwDeck) (file archive : List UInt8) : List (List UInt8) :=
  padcat [g.bytes, file, archive]

/-- The number of CCW cards behind card 0, ten CCWs on a card. -/
def CcwDeck.ccwCards (g : CcwDeck) : ℕ := (g.ccws.length + 9) / 10

/-- The number of cards of a file. -/
def fileCards (size : ℕ) : ℕ := (size + 79) / 80

/-- CP-CCW `i + 3` reads CCW card `i + 2` into the slot behind those there are. -/
def cpExecuted (ccwAddr i : ℕ) : Executed :=
  ⟨ccwAddr + 8 * i, ⟨0x02, ccwAddr + 80 * (i + 1), 0x40, 80⟩, some (i + 2)⟩

/-- The NOP that is CCW `q`. -/
def nopExecuted (ccwAddr q : ℕ) : Executed := ⟨ccwAddr + 8 * q, ⟨0x03, 8, 0x60, 1⟩, none⟩

/-- LOADER-CCW `i + 1`, CCW `q`, reads the card with the number `card`; only the last one is
without chaining. -/
def loaderExecuted (dataCards addr ccwAddr q card i : ℕ) : Executed :=
  ⟨ccwAddr + 8 * q, ⟨0x02, addr + 80 * i, if i + 1 = dataCards then 0 else 0x40, 80⟩, some card⟩

/-- What the channel is to do with a deck for a file of `dataCards` cards: CP-CCW 1 and the
other CP-CCWs read a CCW card each, into consecutive slots from `ccwAddr` on; then come the
NOPs; and the LOADER-CCWs read the data cards into consecutive slots from `addr` on. -/
def CcwDeck.program (g : CcwDeck) (dataCards addr ccwAddr : ℕ) : List Executed :=
  ⟨8, ⟨0x02, ccwAddr, 0x40, 80⟩, some 1⟩ :: (List.range g.cps.length).map (cpExecuted ccwAddr) ++
    (List.range g.nops.length).map (fun i => nopExecuted ccwAddr (g.cps.length + i)) ++
    (List.range dataCards).map fun i => loaderExecuted dataCards addr ccwAddr
      (g.cps.length + g.nops.length + i) (g.ccwCards + 1 + i) i

/-- **The deck loads itself.**  There is one CP-CCW for each CCW card but the first; and
the channel program of the deck, with any archive behind the file and from any contents
of storage, is the one it is to be, ends after it, and leaves the file at `addr`. -/
structure LoadsItself (g : CcwDeck) (file : List UInt8) (addr ccwAddr : ℕ) : Prop where
  exact : g.cps.length + 1 = g.ccwCards
  runs : ∀ archive mem, ∃ t, Reaches (g.deck file archive) (ipl (g.deck file archive) mem) t ∧
    t.status = .ended ∧ t.log = g.program (fileCards file.length) addr ccwAddr ∧
    ∀ k < file.length, t.mem (addr + k) = file.getD k 0

end Hvf
