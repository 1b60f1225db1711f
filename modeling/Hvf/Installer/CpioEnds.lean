/-
# A damaged install archive

`unload_archive` of `installer/cpio.c` again, with what it does to an archive that is not
one: `readcard` keeps in `eof` that the media is at its end and then reads nothing, while
`fill` goes on, and nothing keeps the cards inside `dasd_buf`.  A write behind the buffer and
a `fill` that is no `int` end the run here (`UnloadEnd`), and so does a file that `save_file`
refuses.

The cards hold an archive (`Archived`) if every header leads to the next one on them, and at
last to a trailer or to a file with which `save_file` dies, and no name or contents need more
than the buffer.  That is exactly when `unload_archive` ends on the cards, and then it ends
inside its buffer (`unload_of_archived`).

The names and the blocks of loaders are read from the buffer also where there are no cards in
it: `held` is what it has then, the cards in front and behind them what was there before.
-/

import Hvf.Installer.CpioRound
import Hvf.Installer.SaveFile
import Hvf.Installer.EdfSession

namespace Hvf

open Loader

/-- **The state of the unload**: the reader with its buffer and cards, `eof` of `readcard`,
and the volume. -/
structure Unloading extends Reader where
  eof : Bool
  disk : Loader

/-- The end, with the last state, or the next state. -/
abbrev Unloads := Except (UnloadEnd × Unloading) Unloading

/-- `readcard(dasd_buf + fill)`. -/
def Unloading.readcard (s : Unloading) : Unloads :=
  if s.eof then .ok s
  else
    match s.cards with
    | [] => .ok { s with eof := true }
    | _ :: _ =>
        if dasdBufSize < s.fill + 80 then .error (.outside, s)
        else .ok { s with toReader := s.toReader.readcard }

/-- One more card, or what takes its place at the end of the media. -/
def Unloading.more (s : Unloading) : Unloads :=
  s.readcard.bind fun s =>
    if 2 ^ 31 ≤ s.fill + 80 then .error (.overflow, s) else .ok { s with fill := s.fill + 80 }

/-- Cards until `need` bytes are in use, at most `fuel` of them. -/
def Unloading.fillTo (need : ℕ) : ℕ → Unloading → Unloads
  | 0, s => .ok s
  | fuel + 1, s => if s.fill < need then s.more.bind (fillTo need fuel) else .ok s

/-- The first `n` bytes are done, the `memmove` of the rest to the front. -/
def Unloading.advance (n : ℕ) (s : Unloading) : Unloads :=
  if dasdBufSize < s.fill - n then .error (.outside, s)
  else .ok { s with toReader := s.toReader.advance n }

section

variable (ebcdic : UInt8 → UInt8)

/-- `save_file` of the contents in the front of `dasd_buf`. -/
def Unloading.saveFile (te : ArchTable) (filesize : ℕ) (s : Unloading) : Unloads :=
  match Hvf.saveFile ebcdic te filesize s.buf s.disk with
  | .error e => .error (e, s)
  | .ok (buf, disk) => .ok { s with buf, disk }

/-- A round behind the test for the trailer. -/
def unloadFile (namesize filesize : ℕ) (s : Unloading) : Unloads :=
  let entry := archTable.find? fun te => strcmp s.name te.arch = 0
  (s.advance (cpioHdrSize + namesize)).bind fun s =>
    (s.fillTo filesize filesize).bind fun s =>
      (match entry with
        | some te => s.saveFile ebcdic te filesize
        | none => .ok s).bind fun s => s.advance filesize

/-- A round of the loop of `unload_archive`. -/
def unloadRound (s : Unloading) : Unloads :=
  (if s.fill < cpioHdrSize then s.more else .ok s).bind fun s =>
    let namesize := getnumber s.buf 6 59 0
    let filesize := getnumber s.buf 11 65 0
    (s.fillTo (namesize + cpioHdrSize) (namesize + cpioHdrSize)).bind fun s =>
      if namesize = 11 ∧ strncmp trailer s.name 10 = 0 then .error (.trailer, s)
      else unloadFile ebcdic namesize filesize s

/-- The loop, for at most `n` rounds. -/
def unloadRounds : ℕ → Unloading → Option (UnloadEnd × Unloading)
  | 0, _ => none
  | n + 1, s =>
      match unloadRound ebcdic s with
      | .error e => some e
      | .ok s => unloadRounds n s

variable (cards : List (List UInt8)) (buf : ℕ → UInt8) (disk : Loader)

/-- `unload_archive` comes to a trailer or dies, inside its buffer, with `eof` at the end.
`buf` is what `malloc` finds in storage. -/
def UnloadEnds (eof : Bool) : Prop :=
  ∃ n e s, unloadRounds ebcdic n ⟨⟨buf, 0, cards⟩, false, disk⟩ = some (e, s) ∧
    (e = .trailer ∨ e = .died) ∧ s.eof = eof

/-- **`unload_archive` ends, inside its buffer,** at a trailer or by `die`. -/
def UnloadMeets : Prop := ∃ eof, UnloadEnds ebcdic cards buf disk eof

/-- It ends so before it asks for a card that is not there. -/
def UnloadOnCards : Prop := UnloadEnds ebcdic cards buf disk false

end

/-! ### What is on the cards -/

section

variable (cards : List (List UInt8))

/-- Byte `i` of the cards. -/
def tape (i : ℕ) : UInt8 := (cards.getD (i / 80) []).getD (i % 80) 0

/-- How many cards the first `p` bytes are on. -/
def cardsTo (p : ℕ) : ℕ := (p + 79) / 80

/-- The `need` bytes from `p` on are on the cards, and the buffer holds them, to the end of
their last card. -/
def OnCards (p need : ℕ) : Prop :=
  p + need ≤ 80 * cards.length ∧ 80 * cardsTo (p + need) ≤ p + dasdBufSize

/-- **What the buffer holds** where its front is byte `p` and `c` cards have been read: the
cards, and behind them what it held before. -/
def held (p c : ℕ) (buf : ℕ → UInt8) : ℕ → UInt8 := fun i =>
  if p + i < 80 * c then tape cards (p + i) else buf i

/-- The two sizes of the header at `p`. -/
def namesizeAt (p : ℕ) : ℕ := getnumber (fun i => tape cards (p + i)) 6 59 0
/-- The size of the data that the header at a byte of the tape gives, its eleven octal digits
from byte 65 on. -/
def filesizeAt (p : ℕ) : ℕ := getnumber (fun i => tape cards (p + i)) 11 65 0

/-- Where the contents begin whose header is at `p`. -/
def dataAt (p : ℕ) : ℕ := p + (cpioHdrSize + namesizeAt cards p)

/-- The header at `p` is taken for the trailer. -/
def TrailerAt (p : ℕ) : Prop :=
  namesizeAt cards p = 11 ∧
    strncmp trailer (stringAt (fun i => tape cards (p + i)) (dasdBufSize - cpioHdrSize)
      cpioHdrSize) 10 = 0

/-- The buffer with the header at `p` and its name. -/
def nameHeld (p : ℕ) (buf : ℕ → UInt8) : ℕ → UInt8 :=
  held cards p (cardsTo (p + (namesizeAt cards p + cpioHdrSize))) buf

/-- The buffer with the contents behind the name. -/
def dataHeld (p : ℕ) (buf : ℕ → UInt8) : ℕ → UInt8 :=
  held cards (dataAt cards p) (cardsTo (dataAt cards p + filesizeAt cards p))
    (nameHeld cards p buf)

/-- The entry of the table that the name of the header at `p` is compared to.  `strcmp` ends
at the first zero, also if it is behind the name. -/
def entryAt (p : ℕ) (buf : ℕ → UInt8) : Option ArchTable :=
  let name := stringAt (nameHeld cards p buf) (dasdBufSize - cpioHdrSize) cpioHdrSize
  archTable.find? fun te => strcmp name te.arch = 0

/-- Whether so many bytes from a place on are on the cards is decided by comparisons. -/
instance (p need : ℕ) : Decidable (OnCards cards p need) := inferInstanceAs (Decidable (_ ∧ _))

/-- Whether the trailer begins at a place is decided from the bytes there. -/
instance (p : ℕ) : Decidable (TrailerAt cards p) := inferInstanceAs (Decidable (_ ∧ _))

/-- **The cards hold an archive from `p` on,** for a buffer and a volume as the files before
leave them: a trailer; or a file that is skipped or saved, and behind it an archive; or a file
with which `save_file` dies.  Every header with its name, and every file's contents, are on
the cards and in the buffer as a whole. -/
inductive Archived (ebcdic : UInt8 → UInt8) : ℕ → (ℕ → UInt8) → Loader → Prop
  | trailer {p : ℕ} {buf : ℕ → UInt8} {disk : Loader}
      (hname : OnCards cards p (namesizeAt cards p + cpioHdrSize))
      (htrailer : TrailerAt cards p) : Archived ebcdic p buf disk
  | skipped {p : ℕ} {buf : ℕ → UInt8} {disk : Loader}
      (hname : OnCards cards p (namesizeAt cards p + cpioHdrSize))
      (htrailer : ¬ TrailerAt cards p)
      (hdata : OnCards cards (dataAt cards p) (filesizeAt cards p))
      (hentry : entryAt cards p buf = none)
      (hnext : Archived ebcdic (dataAt cards p + filesizeAt cards p) (dataHeld cards p buf)
        disk) : Archived ebcdic p buf disk
  | died {p : ℕ} {buf : ℕ → UInt8} {disk : Loader} {te : ArchTable}
      (hname : OnCards cards p (namesizeAt cards p + cpioHdrSize))
      (htrailer : ¬ TrailerAt cards p)
      (hdata : OnCards cards (dataAt cards p) (filesizeAt cards p))
      (hentry : entryAt cards p buf = some te)
      (hsave : saveFile ebcdic te (filesizeAt cards p) (dataHeld cards p buf) disk =
        .error .died) : Archived ebcdic p buf disk
  | saved {p : ℕ} {buf buf' : ℕ → UInt8} {disk disk' : Loader} {te : ArchTable}
      (hname : OnCards cards p (namesizeAt cards p + cpioHdrSize))
      (htrailer : ¬ TrailerAt cards p)
      (hdata : OnCards cards (dataAt cards p) (filesizeAt cards p))
      (hentry : entryAt cards p buf = some te)
      (hsave : saveFile ebcdic te (filesizeAt cards p) (dataHeld cards p buf) disk =
        .ok (buf', disk'))
      (hnext : Archived ebcdic (dataAt cards p + filesizeAt cards p) buf' disk') :
      Archived ebcdic p buf disk

end

/-! ### Behind the end of the media -/

section

/-- `eof` is on from here on. -/
def ReadPast : Unloads → Prop
  | .ok s => s.eof = true
  | .error e => e.2.eof = true

/-- It is, or something was written outside the buffer. -/
def Lost (r : Unloads) : Prop := ReadPast r ∨ ∃ s, r = .error (.outside, s)

/-- A run that has read past the cards stays so, whatever follows. -/
theorem ReadPast.bind {r : Unloads} {f : Unloading → Unloads} (h : ReadPast r)
    (hf : ∀ s, s.eof = true → ReadPast (f s)) : ReadPast (r.bind f) := by
  cases r with
  | ok s => exact hf s h
  | error e => exact h

/-- A run whose cards end stays without its trailer, whatever follows. -/
theorem Lost.bind {r : Unloads} {f : Unloading → Unloads} (h : Lost r)
    (hf : ∀ s, s.eof = true → ReadPast (f s)) : Lost (r.bind f) := by
  rcases h with hpast | ⟨s, rfl⟩
  · exact Or.inl (hpast.bind hf)
  · exact Or.inr ⟨s, rfl⟩

variable {s : Unloading}

/-- Another card read behind the last one reads past the cards. -/
theorem readPast_more (h : s.eof = true) : ReadPast s.more := by
  rw [Unloading.more, Unloading.readcard, if_pos h]
  dsimp only [Except.bind]
  split
  · exact h
  · exact h

/-- Filling the buffer behind the last card reads past the cards, by induction on the cards
asked for. -/
theorem readPast_fillTo (need fuel : ℕ) (h : s.eof = true) : ReadPast (s.fillTo need fuel) := by
  induction fuel generalizing s with
  | zero => exact h
  | succ fuel ih =>
    rw [Unloading.fillTo]
    split
    · exact (readPast_more h).bind fun s hs => ih hs
    · exact h

/-- Moving on in the buffer behind the last card keeps that so. -/
theorem readPast_advance (n : ℕ) (h : s.eof = true) : ReadPast (s.advance n) := by
  rw [Unloading.advance]
  split
  · exact h
  · exact h

variable (ebcdic : UInt8 → UInt8)

/-- Saving a file behind the last card keeps that so. -/
theorem readPast_saveFile (te : ArchTable) (filesize : ℕ) (h : s.eof = true) :
    ReadPast (s.saveFile ebcdic te filesize) := by
  rw [Unloading.saveFile]
  split
  · exact h
  · exact h

/-- A file unloaded behind the last card has read past the cards. -/
theorem readPast_unloadFile (namesize filesize : ℕ) (h : s.eof = true) :
    ReadPast (unloadFile ebcdic namesize filesize s) := by
  refine (readPast_advance _ h).bind fun s hs => (readPast_fillTo _ _ hs).bind fun s hs =>
    ReadPast.bind ?_ fun s hs => readPast_advance _ hs
  split
  · exact readPast_saveFile ebcdic _ _ hs
  · exact hs

/-- **Nothing brings the reader back.** -/
theorem readPast_unloadRound (h : s.eof = true) : ReadPast (unloadRound ebcdic s) := by
  refine ReadPast.bind (r := if s.fill < cpioHdrSize then s.more else .ok s) ?_ fun s hs =>
    (readPast_fillTo _ _ hs).bind fun s hs => ?_
  · split
    · exact readPast_more h
    · exact h
  · split
    · exact hs
    · exact readPast_unloadFile ebcdic _ _ hs

/-- **Once the cards have ended, they have ended**: whatever rounds follow, the end they come to
is behind the cards. -/
theorem readPast_unloadRounds {n : ℕ} {e : UnloadEnd} {t : Unloading} (h : s.eof = true)
    (hrun : unloadRounds ebcdic n s = some (e, t)) : t.eof = true := by
  induction n generalizing s with
  | zero => cases hrun
  | succ n ih =>
    have hround := readPast_unloadRound ebcdic h
    rw [unloadRounds] at hrun
    generalize unloadRound ebcdic s = r at hround hrun
    cases r with
    | ok s => exact ih hround hrun
    | error e =>
      obtain rfl := Option.some.inj hrun
      exact hround

/-- A run that is lost in its first round ends outside the buffer or behind the media. -/
theorem Lost.end_eq {n : ℕ} {e : UnloadEnd} {t : Unloading} (h : Lost (unloadRound ebcdic s))
    (hrun : unloadRounds ebcdic n s = some (e, t)) : e = .outside ∨ t.eof = true := by
  cases n with
  | zero => cases hrun
  | succ n =>
    rw [unloadRounds] at hrun
    generalize unloadRound ebcdic s = r at h hrun
    rcases h with hpast | ⟨u, rfl⟩
    · cases r with
      | ok u => exact Or.inr (readPast_unloadRounds ebcdic hpast hrun)
      | error e =>
        obtain rfl := Option.some.inj hrun
        exact Or.inr hpast
    · obtain ⟨rfl, rfl⟩ := Prod.mk.inj (Option.some.inj hrun)
      exact Or.inl rfl

end

/-! ### On the cards -/

section

variable {cards : List (List UInt8)} {buf : ℕ → UInt8}

/-- **The front of the buffer is byte `p` of the cards,** and `c` cards are in it; behind them
is `buf`. -/
structure AtByte (cards : List (List UInt8)) (buf : ℕ → UInt8) (s : Unloading) (p c : ℕ) :
    Prop where
  eof : s.eof = false
  fill : p + s.fill = 80 * c
  rest : s.cards = cards.drop c
  onCards : c ≤ cards.length
  room : s.fill ≤ dasdBufSize
  buf : s.buf = held cards p c buf

variable {s : Unloading} {p c need : ℕ}

/-- Bytes that are in the buffer are on the cards. -/
theorem AtByte.onCards_of_le (h : AtByte cards buf s p c) (hneed : need ≤ s.fill) :
    OnCards cards p need := by
  have hfill := h.fill
  have hon := h.onCards
  have hroom := h.room
  have hmul : 80 * c ≤ 80 * cards.length := Nat.mul_le_mul_left 80 hon
  refine ⟨by omega, ?_⟩
  rw [cardsTo]
  omega

/-- Fewer bytes from the same place are on the cards too. -/
theorem OnCards.mono {need' : ℕ} (h : OnCards cards p need) (hle : need' ≤ need) :
    OnCards cards p need' := by
  obtain ⟨hon, hroom⟩ := h
  rw [cardsTo] at hroom
  refine ⟨by omega, ?_⟩
  rw [cardsTo]
  omega

/-- What is on the cards and is read at once fits the buffer. -/
theorem OnCards.le (h : OnCards cards p need) : need ≤ dasdBufSize := by
  obtain ⟨-, hroom⟩ := h
  rw [cardsTo] at hroom
  omega

/-- Byte `i` that is in use. -/
theorem AtByte.used (h : AtByte cards buf s p c) {i : ℕ} (hi : i < s.fill) :
    s.buf i = tape cards (p + i) := by
  have hfill := h.fill
  rw [h.buf, held, if_pos (by omega)]

/-- The next card. -/
theorem AtByte.more_card (h : AtByte cards buf s p c) (hcard : c < cards.length)
    (hroom : s.fill + 80 ≤ dasdBufSize) :
    ∃ t, s.more = .ok t ∧ AtByte cards buf t p (c + 1) ∧ t.fill = s.fill + 80 ∧
      t.disk = s.disk := by
  obtain ⟨heof, hfill, hrest, -, -, hbuf⟩ := h
  rw [List.drop_eq_getElem_cons hcard] at hrest
  have hread : s.readcard = .ok { s with toReader := s.toReader.readcard } := by
    rw [Unloading.readcard, heof, hrest, if_neg Bool.false_ne_true]
    exact if_neg (not_lt.2 hroom)
  have hint : ¬ 2 ^ 31 ≤ s.fill + 80 := by
    rw [dasdBufSize] at hroom
    omega
  refine ⟨{ s with toReader := { s.toReader.readcard with fill := s.fill + 80 } }, ?_, ?_, rfl, rfl⟩
  · rw [Unloading.more, hread]
    rw [Reader.readcard, hrest]
    exact if_neg hint
  · rw [Reader.readcard, hrest]
    refine ⟨heof, by dsimp only; omega, rfl, hcard, hroom, funext fun i => ?_⟩
    dsimp only
    rw [memcpy, hbuf, held, held]
    by_cases hold : i < s.fill
    · rw [if_neg (by omega), if_pos (by omega), if_pos (by omega)]
    · by_cases hnew : i < s.fill + 80
      · have hcol : (p + i) / 80 = c ∧ (p + i) % 80 = i - s.fill := by omega
        rw [if_pos (by omega), if_pos (by omega), Nat.zero_add, tape, hcol.1, hcol.2,
          List.getD_eq_getElem?_getD (l := cards), List.getElem?_eq_getElem hcard, Option.getD_some]
      · rw [if_neg (by omega), if_neg (by omega), if_neg (by omega)]

/-- A card that does not go into the buffer. -/
theorem AtByte.more_outside (h : AtByte cards buf s p c) (hcard : c < cards.length)
    (hroom : dasdBufSize < s.fill + 80) : s.more = .error (.outside, s) := by
  have hrest := h.rest
  rw [List.drop_eq_getElem_cons hcard] at hrest
  have hread : s.readcard = .error (.outside, s) := by
    rw [Unloading.readcard, h.eof, hrest, if_neg Bool.false_ne_true]
    exact if_pos hroom
  rw [Unloading.more, hread]
  rfl

/-- No card. -/
theorem AtByte.more_past (h : AtByte cards buf s p c) (hcard : cards.length ≤ c) :
    ReadPast s.more := by
  have hrest := h.rest
  rw [List.drop_eq_nil_of_le hcard] at hrest
  have hread : s.readcard = .ok { s with eof := true } := by
    rw [Unloading.readcard, h.eof, hrest]
    rfl
  rw [Unloading.more, hread]
  dsimp only [Except.bind]
  split
  · rfl
  · rfl

/-- **What is on the cards** comes into the buffer, with no more cards than it takes. -/
theorem AtByte.fillTo (h : AtByte cards buf s p c) (hneed : OnCards cards p need) (fuel : ℕ)
    (hfuel : need ≤ s.fill + 80 * fuel) :
    ∃ t, s.fillTo need fuel = .ok t ∧ AtByte cards buf t p (max c (cardsTo (p + need))) ∧
      need ≤ t.fill ∧ t.disk = s.disk := by
  have hfill := h.fill
  obtain ⟨hon, hroom⟩ := id hneed
  rw [cardsTo] at hroom
  induction fuel generalizing s c with
  | zero =>
    have hmax : max c (cardsTo (p + need)) = c := max_eq_left (by rw [cardsTo]; omega)
    exact ⟨s, rfl, hmax.symm ▸ h, hfuel, rfl⟩
  | succ fuel ih =>
    rw [Unloading.fillTo]
    by_cases hmore : s.fill < need
    · obtain ⟨t, ht, hat, hfill', hdisk⟩ := h.more_card (by omega) (by omega)
      obtain ⟨u, hu, hres⟩ := ih hat (by omega) hat.fill
      have hmax : max (c + 1) (cardsTo (p + need)) = max c (cardsTo (p + need)) := by
        rw [cardsTo]
        omega
      rw [hmax, hdisk] at hres
      refine ⟨u, ?_, hres⟩
      rw [if_pos hmore, ht]
      exact hu
    · have hmax : max c (cardsTo (p + need)) = c := max_eq_left (by rw [cardsTo]; omega)
      exact ⟨s, if_neg hmore, hmax.symm ▸ h, not_lt.1 hmore, rfl⟩

/-- What is not, or does not go into the buffer, is lost. -/
theorem AtByte.fillTo_lost (h : AtByte cards buf s p c) (hneed : ¬ OnCards cards p need)
    (fuel : ℕ) (hfuel : need ≤ s.fill + 80 * fuel) : Lost (s.fillTo need fuel) := by
  have hmore : s.fill < need := by
    by_contra hle
    exact hneed (h.onCards_of_le (not_lt.1 hle))
  induction fuel generalizing s c with
  | zero => omega
  | succ fuel ih =>
    rw [Unloading.fillTo, if_pos hmore]
    by_cases hcard : c < cards.length
    · by_cases hroom : dasdBufSize < s.fill + 80
      · rw [h.more_outside hcard hroom]
        exact Or.inr ⟨s, rfl⟩
      · obtain ⟨t, ht, hat, hfill, -⟩ := h.more_card hcard (not_lt.1 hroom)
        rw [ht]
        refine ih hat (by omega) ?_
        by_contra hle
        exact hneed (hat.onCards_of_le (not_lt.1 hle))
    · exact Lost.bind (Or.inl (h.more_past (not_lt.1 hcard))) fun t ht => readPast_fillTo _ _ ht

/-- A buffer that is too small, with cards to fill it. -/
theorem AtByte.fillTo_outside (h : AtByte cards buf s p c) (hneed : dasdBufSize < need)
    (hcards : p + dasdBufSize < 80 * cards.length) (fuel : ℕ)
    (hfuel : need ≤ s.fill + 80 * fuel) :
    ∃ t, s.fillTo need fuel = .error (.outside, t) := by
  have hroom := h.room
  have hfill := h.fill
  induction fuel generalizing s c with
  | zero => omega
  | succ fuel ih =>
    rw [Unloading.fillTo, if_pos (by omega)]
    by_cases hfull : dasdBufSize < s.fill + 80
    · rw [h.more_outside (by omega) hfull]
      exact ⟨s, rfl⟩
    · obtain ⟨t, ht, hat, hfill', -⟩ := h.more_card (by omega) (not_lt.1 hfull)
      rw [ht]
      exact ih hat (by omega) hat.room hat.fill

/-! ### A round -/

/-- A number depends on its digits alone. -/
theorem getnumber_congr {data data' : ℕ → UInt8} {digits i ret : ℕ}
    (h : ∀ j, i ≤ j → j < i + digits → data j = data' j) :
    getnumber data digits i ret = getnumber data' digits i ret := by
  induction digits generalizing i ret with
  | zero => rfl
  | succ digits ih =>
    rw [getnumber, getnumber, h i le_rfl (by omega)]
    exact ih fun j hge hlt => h j (by omega) (by omega)

/-- The header is one card away at most. -/
theorem Unloading.fillTo_header (s : Unloading) :
    (if s.fill < cpioHdrSize then s.more else .ok s) = s.fillTo cpioHdrSize 1 := by
  rw [Unloading.fillTo]
  congr 1
  cases s.more with
  | ok t => rfl
  | error e => rfl

/-- **The two sizes read in the buffer are those of the tape**, once the header is in the
buffer. -/
theorem AtByte.sizes (h : AtByte cards buf s p c) (hfill : cpioHdrSize ≤ s.fill) :
    getnumber s.buf 6 59 0 = namesizeAt cards p ∧
      getnumber s.buf 11 65 0 = filesizeAt cards p := by
  rw [cpioHdrSize] at hfill
  exact ⟨getnumber_congr fun j _ hj => h.used (by omega),
    getnumber_congr fun j _ hj => h.used (by omega)⟩

/-- The test for the trailer looks at what is on the cards. -/
theorem AtByte.trailer_iff (h : AtByte cards buf s p c)
    (hfill : namesizeAt cards p + cpioHdrSize ≤ s.fill) :
    (namesizeAt cards p = 11 ∧ strncmp trailer s.name 10 = 0) ↔ TrailerAt cards p := by
  refine and_congr_right fun hname => ?_
  have hfirst : (stringAt (fun i => tape cards (p + i)) (dasdBufSize - cpioHdrSize)
      cpioHdrSize).headD 0 = tape cards (p + 76) := stringAt_headD _ 2097075 76
  rw [strncmp_trailer_iff, strncmp_trailer_iff, Reader.name_headD, hfirst,
    h.used (by rw [hname, cpioHdrSize] at hfill; omega)]

/-- **What is behind the first `n` bytes is the same**, as it is when a file is saved: the
translation works in the buffer. -/
structure SameBehind (n : ℕ) (s t : Unloading) : Prop where
  cards : t.cards = s.cards
  fill : t.fill = s.fill
  eof : t.eof = s.eof
  buf : ∀ i, n ≤ i → t.buf i = s.buf i

/-- **Bytes that are done** leave the buffer as it was behind the rest. -/
theorem AtByte.advance {t : Unloading} {n : ℕ} (h : AtByte cards buf s p c)
    (hsame : SameBehind n s t) (hn : n ≤ s.fill) :
    ∃ u, t.advance n = .ok u ∧ AtByte cards t.buf u (p + n) c ∧ u.disk = t.disk := by
  have hused : ∀ i < s.fill, s.buf i = tape cards (p + i) := fun i hi => h.used hi
  obtain ⟨heof, hfillc, hrest, hon, hroom, -⟩ := h
  obtain ⟨hcards, hfill, heof', hbuf⟩ := hsame
  refine ⟨_, if_neg (by omega), ⟨heof'.trans heof, ?_, hcards.trans hrest, hon, ?_,
    funext fun i => ?_⟩, rfl⟩
  · show p + n + (t.fill - n) = 80 * c
    omega
  · exact (Nat.sub_le _ _).trans (hfill ▸ hroom)
  · dsimp only [Reader.advance]
    rw [memcpy, held]
    by_cases hi : i < s.fill - n
    · rw [if_pos (by omega), if_pos (by omega), Nat.sub_zero, hbuf _ (by omega),
        hused _ (by omega), Nat.add_assoc]
    · rw [if_neg (by omega), if_neg (by omega)]

variable (ebcdic : UInt8 → UInt8)

/-- **The contents** are on the cards: they come to the front of the buffer, and then the
entry is looked at that was found before. -/
theorem AtByte.unloadFile (h : AtByte cards buf s p (cardsTo (dataAt cards p)))
    (hname : cpioHdrSize + namesizeAt cards p ≤ s.fill)
    (hdata : OnCards cards (dataAt cards p) (filesizeAt cards p)) :
    ∃ t, AtByte cards (nameHeld cards p buf) t (dataAt cards p)
        (cardsTo (dataAt cards p + filesizeAt cards p)) ∧
      filesizeAt cards p ≤ t.fill ∧ t.disk = s.disk ∧
      unloadFile ebcdic (namesizeAt cards p) (filesizeAt cards p) s =
        (match entryAt cards p buf with
          | some te => t.saveFile ebcdic te (filesizeAt cards p)
          | none => .ok t).bind fun u => u.advance (filesizeAt cards p) := by
  have hheld : s.buf = nameHeld cards p buf := by
    rw [h.buf, nameHeld, dataAt, Nat.add_comm cpioHdrSize]
  obtain ⟨s₁, hs₁, hat₁, hdisk₁⟩ := h.advance ⟨rfl, rfl, rfl, fun _ _ => rfl⟩ hname
  rw [hheld] at hat₁
  obtain ⟨s₂, hs₂, hat₂, hfill, hdisk₂⟩ := hat₁.fillTo hdata (filesizeAt cards p) (by omega)
  have hmax : max (cardsTo (dataAt cards p)) (cardsTo (dataAt cards p + filesizeAt cards p)) =
      cardsTo (dataAt cards p + filesizeAt cards p) := by
    rw [cardsTo, cardsTo]
    omega
  rw [← dataAt, hmax] at hat₂
  refine ⟨s₂, hat₂, hfill, hdisk₂.trans hdisk₁, ?_⟩
  have hentry : (archTable.find? fun te => decide (strcmp s.name te.arch = 0)) =
      entryAt cards p buf := by
    rw [Reader.name, hheld]
    rfl
  unfold Hvf.unloadFile
  rw [hs₁, hentry]
  dsimp only [Except.bind]
  rw [hs₂]

/-- Contents that are not, or that the buffer does not hold. -/
theorem AtByte.unloadFile_lost {namesize filesize : ℕ} (h : AtByte cards buf s p c)
    (hname : cpioHdrSize + namesize ≤ s.fill)
    (hdata : ¬ OnCards cards (p + (cpioHdrSize + namesize)) filesize) :
    Lost (Hvf.unloadFile ebcdic namesize filesize s) := by
  obtain ⟨s₁, hs₁, hat₁, -⟩ := h.advance ⟨rfl, rfl, rfl, fun _ _ => rfl⟩ hname
  unfold Hvf.unloadFile
  rw [hs₁]
  refine (hat₁.fillTo_lost hdata filesize (by omega)).bind fun t ht => ReadPast.bind ?_ fun u hu =>
    readPast_advance _ hu
  split
  · exact readPast_saveFile ebcdic _ _ ht
  · exact ht

/-- Contents that the buffer does not hold, with cards to fill it. -/
theorem AtByte.unloadFile_outside {namesize filesize : ℕ} (h : AtByte cards buf s p c)
    (hname : cpioHdrSize + namesize ≤ s.fill) (hdata : dasdBufSize < filesize)
    (hcards : p + (cpioHdrSize + namesize) + dasdBufSize < 80 * cards.length) :
    ∃ t, Hvf.unloadFile ebcdic namesize filesize s = .error (.outside, t) := by
  obtain ⟨s₁, hs₁, hat₁, -⟩ := h.advance ⟨rfl, rfl, rfl, fun _ _ => rfl⟩ hname
  obtain ⟨t, ht⟩ := hat₁.fillTo_outside hdata hcards filesize (by omega)
  refine ⟨t, ?_⟩
  unfold Hvf.unloadFile
  rw [hs₁]
  dsimp only [Except.bind]
  rw [ht]

/-- **A round** whose header and name are on the cards. -/
theorem AtByte.unloadRound (h : AtByte cards buf s p (cardsTo p))
    (hname : OnCards cards p (namesizeAt cards p + cpioHdrSize)) :
    ∃ t, AtByte cards buf t p (cardsTo (dataAt cards p)) ∧
      cpioHdrSize + namesizeAt cards p ≤ t.fill ∧ t.disk = s.disk ∧
      unloadRound ebcdic s =
        if TrailerAt cards p then .error (.trailer, t)
        else Hvf.unloadFile ebcdic (namesizeAt cards p) (filesizeAt cards p) t := by
  obtain ⟨s₁, hs₁, hat₁, hfill₁, hdisk₁⟩ := h.fillTo (hname.mono (Nat.le_add_left _ _)) 1
    (by rw [cpioHdrSize]; omega)
  obtain ⟨hnamesize, hfilesize⟩ := hat₁.sizes hfill₁
  obtain ⟨s₂, hs₂, hat₂, hfill₂, hdisk₂⟩ := hat₁.fillTo hname
    (namesizeAt cards p + cpioHdrSize) (by omega)
  have hmax : max (max (cardsTo p) (cardsTo (p + cpioHdrSize)))
      (cardsTo (p + (namesizeAt cards p + cpioHdrSize))) = cardsTo (dataAt cards p) := by
    rw [dataAt, cardsTo, cardsTo, cardsTo, cardsTo]
    omega
  rw [hmax] at hat₂
  refine ⟨s₂, hat₂, by omega, hdisk₂.trans hdisk₁, ?_⟩
  unfold Hvf.unloadRound
  rw [Unloading.fillTo_header, hs₁]
  dsimp only [Except.bind]
  rw [hnamesize, hfilesize, hs₂]
  exact if_congr (hat₂.trailer_iff hfill₂) rfl rfl

/-- A round without a header or its name. -/
theorem AtByte.unloadRound_lost (h : AtByte cards buf s p c)
    (hname : ¬ OnCards cards p (namesizeAt cards p + cpioHdrSize)) :
    Lost (Hvf.unloadRound ebcdic s) := by
  have hrest : ∀ t : Unloading, t.eof = true → ∀ namesize filesize : ℕ,
      ReadPast (if namesize = 11 ∧ strncmp trailer t.name 10 = 0 then .error (.trailer, t)
        else Hvf.unloadFile ebcdic namesize filesize t) := fun t ht namesize _ => by
    split
    · exact ht
    · exact readPast_unloadFile ebcdic _ _ ht
  unfold Hvf.unloadRound
  rw [Unloading.fillTo_header]
  by_cases hheader : OnCards cards p cpioHdrSize
  · obtain ⟨s₁, hs₁, hat₁, hfill₁, -⟩ := h.fillTo hheader 1
      (by rw [cpioHdrSize]; omega)
    obtain ⟨hnamesize, hfilesize⟩ := hat₁.sizes hfill₁
    rw [hs₁]
    dsimp only [Except.bind]
    rw [hnamesize, hfilesize]
    exact (hat₁.fillTo_lost hname _ (by omega)).bind fun t ht => hrest t ht _ _
  · refine (h.fillTo_lost hheader 1 (by rw [cpioHdrSize]; omega)).bind fun t ht => ?_
    exact (readPast_fillTo _ _ ht).bind fun u hu => hrest u hu _ _

/-- **What a round does with a file that is on the cards as a whole**: it is passed over if
the table does not have it, and else saved, or the run ends as `save_file` ends it. -/
inductive FileDone (cards : List (List UInt8)) (p : ℕ) (buf : ℕ → UInt8) (disk : Loader) :
    Unloads → Prop
  | skipped {t : Unloading} (hentry : entryAt cards p buf = none)
      (hat : AtByte cards (dataHeld cards p buf) t (dataAt cards p + filesizeAt cards p)
        (cardsTo (dataAt cards p + filesizeAt cards p))) (hdisk : t.disk = disk) :
      FileDone cards p buf disk (.ok t)
  | saved {t : Unloading} {te : ArchTable} {buf' : ℕ → UInt8} {disk' : Loader}
      (hentry : entryAt cards p buf = some te)
      (hsave : saveFile ebcdic te (filesizeAt cards p) (dataHeld cards p buf) disk =
        .ok (buf', disk'))
      (hat : AtByte cards buf' t (dataAt cards p + filesizeAt cards p)
        (cardsTo (dataAt cards p + filesizeAt cards p))) (hdisk : t.disk = disk') :
      FileDone cards p buf disk (.ok t)
  | refused {t : Unloading} {te : ArchTable} {e : UnloadEnd}
      (hentry : entryAt cards p buf = some te)
      (hsave : saveFile ebcdic te (filesizeAt cards p) (dataHeld cards p buf) disk = .error e)
      (heof : t.eof = false) : FileDone cards p buf disk (.error (e, t))

/-- **A round with a file on the cards** skips it, saves it or ends with it. -/
theorem AtByte.fileDone (h : AtByte cards buf s p (cardsTo (dataAt cards p)))
    (hname : cpioHdrSize + namesizeAt cards p ≤ s.fill)
    (hdata : OnCards cards (dataAt cards p) (filesizeAt cards p)) :
    FileDone ebcdic cards p buf s.disk
      (Hvf.unloadFile ebcdic (namesizeAt cards p) (filesizeAt cards p) s) := by
  obtain ⟨t, hat, hfill, hdisk, hfile⟩ := h.unloadFile ebcdic hname hdata
  have hbuf : t.buf = dataHeld cards p buf := hat.buf
  rw [hfile]
  cases hentry : entryAt cards p buf with
  | none =>
    obtain ⟨u, hu, hat', hdisk'⟩ := hat.advance ⟨rfl, rfl, rfl, fun _ _ => rfl⟩ hfill
    dsimp only [Except.bind]
    rw [hu]
    exact .skipped hentry (hbuf ▸ hat') (hdisk'.trans hdisk)
  | some te =>
    dsimp only
    have hcases := saveFile_behind ebcdic te t.buf t.disk (hfill.trans hat.room)
    rw [Unloading.saveFile]
    cases hsave : saveFile ebcdic te (filesizeAt cards p) t.buf t.disk with
    | error e =>
      rw [hbuf, hdisk] at hsave
      exact .refused hentry hsave hat.eof
    | ok r =>
      obtain ⟨buf', disk'⟩ := r
      rw [hsave] at hcases
      rw [hbuf, hdisk] at hsave
      obtain ⟨u, hu, hat', hdisk'⟩ := hat.advance
        (t := { t with buf := buf', disk := disk' }) ⟨rfl, rfl, rfl, hcases⟩ hfill
      dsimp only [Except.bind] at hu ⊢
      rw [hu]
      exact .saved hentry hsave hat' hdisk'

/-- **A round over a file that is whole on the cards** ends behind it: name, data and padding
read, and the file saved if the table has it. -/
theorem AtByte.roundDone (h : AtByte cards buf s p (cardsTo p))
    (hname : OnCards cards p (namesizeAt cards p + cpioHdrSize)) (htrailer : ¬ TrailerAt cards p)
    (hdata : OnCards cards (dataAt cards p) (filesizeAt cards p)) :
    FileDone ebcdic cards p buf s.disk (Hvf.unloadRound ebcdic s) := by
  obtain ⟨t, hat, hfill, hdisk, hround⟩ := h.unloadRound ebcdic hname
  rw [if_neg htrailer] at hround
  rw [hround, ← hdisk]
  exact hat.fileDone ebcdic hfill hdata

/-! ### Runs -/

/-- **An archive** is read to its trailer, or to a file with which `save_file` dies. -/
theorem Archived.ends {disk : Loader} (ha : Archived cards ebcdic p buf disk)
    (h : AtByte cards buf s p (cardsTo p)) (hdisk : s.disk = disk) :
    ∃ n e t, unloadRounds ebcdic n s = some (e, t) ∧ (e = .trailer ∨ e = .died) ∧
      t.eof = false := by
  induction ha generalizing s with
  | trailer hname htrailer =>
    obtain ⟨t, hat, -, -, hround⟩ := h.unloadRound ebcdic hname
    refine ⟨1, .trailer, t, ?_, Or.inl rfl, hat.eof⟩
    rw [unloadRounds, hround, if_pos htrailer]
  | skipped hname htrailer hdata hentry _ ih =>
    have hdone := h.roundDone ebcdic hname htrailer hdata
    rw [hdisk] at hdone
    generalize hr : unloadRound ebcdic s = r at hdone
    cases hdone with
    | skipped _ hat hdisk' =>
      obtain ⟨n, e, v, hrun, hend⟩ := ih hat hdisk'
      refine ⟨n + 1, e, v, ?_, hend⟩
      rw [unloadRounds, hr]
      exact hrun
    | saved hentry' => exact absurd (hentry.symm.trans hentry') (Option.some_ne_none _).symm
    | refused hentry' => exact absurd (hentry.symm.trans hentry') (Option.some_ne_none _).symm
  | died hname htrailer hdata hentry hsave =>
    have hdone := h.roundDone ebcdic hname htrailer hdata
    rw [hdisk] at hdone
    generalize hr : unloadRound ebcdic s = r at hdone
    cases hdone with
    | skipped hentry' => exact absurd (hentry'.symm.trans hentry) (Option.some_ne_none _).symm
    | saved hentry' hsave' =>
      obtain rfl := Option.some.inj (hentry.symm.trans hentry')
      cases hsave.symm.trans hsave'
    | @refused u _ _ hentry' hsave' heof =>
      obtain rfl := Option.some.inj (hentry.symm.trans hentry')
      obtain rfl := Except.error.inj (hsave.symm.trans hsave')
      refine ⟨1, .died, u, ?_, Or.inr rfl, heof⟩
      rw [unloadRounds, hr]
  | saved hname htrailer hdata hentry hsave _ ih =>
    have hdone := h.roundDone ebcdic hname htrailer hdata
    rw [hdisk] at hdone
    generalize hr : unloadRound ebcdic s = r at hdone
    cases hdone with
    | skipped hentry' => exact absurd (hentry'.symm.trans hentry) (Option.some_ne_none _).symm
    | saved hentry' hsave' hat hdisk' =>
      obtain rfl := Option.some.inj (hentry.symm.trans hentry')
      obtain ⟨rfl, rfl⟩ := Prod.mk.inj (Except.ok.inj (hsave.symm.trans hsave'))
      obtain ⟨n, e, v, hrun, hend⟩ := ih hat hdisk'
      refine ⟨n + 1, e, v, ?_, hend⟩
      rw [unloadRounds, hr]
      exact hrun
    | refused hentry' hsave' =>
      obtain rfl := Option.some.inj (hentry.symm.trans hentry')
      cases hsave.symm.trans hsave'

/-- **A run that ends on the cards** has read an archive. -/
theorem archived_of_ends {n : ℕ} {e : UnloadEnd} {t : Unloading}
    (h : AtByte cards buf s p (cardsTo p)) (hrun : unloadRounds ebcdic n s = some (e, t))
    (hend : e = .trailer ∨ e = .died) (heof : t.eof = false) :
    Archived cards ebcdic p buf s.disk := by
  have hlost : ∀ {m : ℕ} {s' : Unloading}, Lost (Hvf.unloadRound ebcdic s') →
      unloadRounds ebcdic m s' ≠ some (e, t) := fun hlost hrun => by
    rcases hlost.end_eq ebcdic hrun with rfl | hpast
    · rcases hend with hend | hend
      · cases hend
      · cases hend
    · rw [heof] at hpast
      cases hpast
  induction n generalizing s p buf with
  | zero => cases hrun
  | succ n ih =>
    by_cases hname : OnCards cards p (namesizeAt cards p + cpioHdrSize)
    · by_cases htrailer : TrailerAt cards p
      · exact .trailer hname htrailer
      · by_cases hdata : OnCards cards (dataAt cards p) (filesizeAt cards p)
        · have hdone := h.roundDone ebcdic hname htrailer hdata
          rw [unloadRounds] at hrun
          generalize unloadRound ebcdic s = r at hdone hrun
          cases hdone with
          | skipped hentry hat' hdisk' =>
            have hnext := ih hat' hrun
            rw [hdisk'] at hnext
            exact .skipped hname htrailer hdata hentry hnext
          | saved hentry hsave hat' hdisk' =>
            have hnext := ih hat' hrun
            rw [hdisk'] at hnext
            exact .saved hname htrailer hdata hentry hsave hnext
          | refused hentry hsave =>
            obtain ⟨rfl, -⟩ := Prod.mk.inj (Option.some.inj hrun)
            rcases hend with rfl | rfl
            · exact absurd hsave (saveFile_ne_trailer hdata.le)
            · exact .died hname htrailer hdata hentry hsave
        · obtain ⟨u, hat, hfill, -, hround⟩ := h.unloadRound ebcdic hname
          have hfile := hat.unloadFile_lost ebcdic hfill hdata
          rw [if_neg htrailer] at hround
          rw [← hround] at hfile
          exact absurd hrun (hlost hfile)
    · exact absurd hrun (hlost (h.unloadRound_lost ebcdic hname))

end

/-- Before the first round the buffer is at the tape's first byte, with one header's cards read.
-/
theorem atByte_initial (cards : List (List UInt8)) (buf : ℕ → UInt8) (disk : Loader) :
    AtByte cards buf ⟨⟨buf, 0, cards⟩, false, disk⟩ 0 (cardsTo 0) :=
  ⟨rfl, rfl, rfl, Nat.zero_le _, Nat.zero_le _, funext fun i => (if_neg (by
    show ¬ 0 + i < 80 * 0
    omega)).symm⟩

/-- **With an archive on the cards** `unload_archive` ends inside its buffer, for any volume and
any storage; and these are the cards with which it ends before it asks for a card that is
not there. -/
theorem unload_of_archived (ebcdic : UInt8 → UInt8) (cards : List (List UInt8))
    (buf : ℕ → UInt8) (disk : Loader) :
    (Archived cards ebcdic 0 buf disk → UnloadMeets ebcdic cards buf disk) ∧
      (UnloadOnCards ebcdic cards buf disk ↔ Archived cards ebcdic 0 buf disk) := by
  have hends : Archived cards ebcdic 0 buf disk → UnloadOnCards ebcdic cards buf disk :=
    fun h => h.ends ebcdic (atByte_initial cards buf disk) rfl
  refine ⟨fun h => ⟨false, hends h⟩, ?_, hends⟩
  rintro ⟨n, e, t, hrun, hend, heof⟩
  exact archived_of_ends ebcdic (atByte_initial cards buf disk) hrun hend heof

/-! ### A deck -/

/-- The cards of a file that is in no entry of the table, and of a text of one record and a
quarter. -/
def deck : List (List UInt8) :=
  padcat [(mkarchive [.bin (ascii "notes") [1, 2, 3],
    .bin (ascii "system.config") (List.replicate 100 0x61)]).getD []]

/-- `save_file` of the `system.config` of the deck. -/
@[irreducible] def configSave : Except UnloadEnd ((ℕ → UInt8) × Loader) :=
  saveFile ebcdicLetter ⟨ascii "system.config", "SYSTEM  ", "CONFIG  ", 80, true, 0⟩
    (filesizeAt deck 85) (dataHeld deck 85 (dataHeld deck 0 fun _ => 0)) fullLoader

/-- The buffer and the volume behind it. -/
@[irreducible] def configSaved : (ℕ → UInt8) × Loader :=
  configSave.toOption.getD (fun _ => 0, fullLoader)

/-- A run known to succeed is the success with its result. -/
theorem eq_ok_of_isSome {ε α : Type} {r : Except ε α} {a : α} (h : r.toOption.isSome = true) :
    r = .ok (r.toOption.getD a) := by
  cases r with
  | ok b => rfl
  | error e => cases h

/-- The example's file is saved, by evaluation. -/
theorem configSave_eq : configSave = .ok configSaved := by
  unfold configSaved
  exact eq_ok_of_isSome (by decide +kernel)

/-- **The deck is an archive** for the volume `fullDisk` and storage of zeros. -/
theorem archived_deck : Archived deck ebcdicLetter 0 (fun _ => 0) fullLoader := by
  have htrailer : Archived deck ebcdicLetter (dataAt deck 85 + filesizeAt deck 85) configSaved.1
      configSaved.2 := .trailer (by decide +kernel) (by decide +kernel)
  have hconfig : Archived deck ebcdicLetter (dataAt deck 0 + filesizeAt deck 0)
      (dataHeld deck 0 fun _ => 0) fullLoader := by
    have hnext : dataAt deck 0 + filesizeAt deck 0 = 85 := by decide +kernel
    have hsave := configSave_eq
    unfold configSave at hsave
    rw [hnext]
    exact .saved (by decide +kernel) (by decide +kernel) (by decide +kernel) (by decide +kernel)
      hsave htrailer
  exact .skipped (by decide +kernel) (by decide +kernel) (by decide +kernel) (by decide +kernel)
    hconfig

/-- This archive of two files, one of which the table has, is read card by card to its
trailer, and its file saved. -/
theorem unload_of_archived_deck : UnloadMeets ebcdicLetter deck (fun _ => 0) fullLoader :=
  (unload_of_archived _ _ _ _).1 archived_deck

/-- A header without a name and with a file of 2 MB and a byte. -/
def largeCard : List UInt8 := ((List.replicate 80 48).set 68 49).set 75 49

/-- The header of the example's cards: an empty name, and data of 2 MB and one byte. -/
theorem largeCard_sizes : namesizeAt (List.replicate 30000 largeCard) 0 = 0 ∧
    filesizeAt (List.replicate 30000 largeCard) 0 = 2097153 := by
  have htape : ∀ i < 80, tape (List.replicate 30000 largeCard) (0 + i) = largeCard.getD i 0 := by
    intro i hi
    rw [tape, Nat.zero_add, Nat.div_eq_of_lt hi, Nat.mod_eq_of_lt hi, List.replicate_succ]
    rfl
  have hname : namesizeAt (List.replicate 30000 largeCard) 0 =
      getnumber (fun i => largeCard.getD i 0) 6 59 0 :=
    getnumber_congr fun j _ hj => htape j (by omega)
  have hfile : filesizeAt (List.replicate 30000 largeCard) 0 =
      getnumber (fun i => largeCard.getD i 0) 11 65 0 :=
    getnumber_congr fun j _ hj => htape j (by omega)
  rw [hname, hfile]
  decide +kernel

/-- **A file of more than 2 MB** is read over what is behind the buffer: nothing compares
the size in its header with the buffer's. -/
theorem not_unloadMeets : ¬ ∀ ebcdic cards buf disk, UnloadMeets ebcdic cards buf disk := by
  intro h
  obtain ⟨eof, n, e, t, hrun, hend, -⟩ := h ebcdicLetter (List.replicate 30000 largeCard)
    (fun _ => 0)
    fullLoader
  obtain ⟨hnamesize, hfilesize⟩ := largeCard_sizes
  have hname : OnCards (List.replicate 30000 largeCard) 0
      (namesizeAt (List.replicate 30000 largeCard) 0 + cpioHdrSize) := by
    rw [hnamesize, OnCards, List.length_replicate]
    decide
  have hno : ¬ TrailerAt (List.replicate 30000 largeCard) 0 := fun htrailer => by
    rw [TrailerAt, hnamesize] at htrailer
    exact absurd htrailer.1 (by decide)
  obtain ⟨u, hat, hfill, -, hround⟩ :=
    (atByte_initial _ (fun _ => 0) fullLoader).unloadRound ebcdicLetter hname
  have hlarge : dasdBufSize < filesizeAt (List.replicate 30000 largeCard) 0 := by
    rw [hfilesize]
    decide
  obtain ⟨v, hout⟩ := hat.unloadFile_outside ebcdicLetter hfill hlarge
    (by rw [hnamesize, List.length_replicate]; decide)
  rw [if_neg hno, hout] at hround
  cases n with
  | zero => cases hrun
  | succ n =>
    rw [unloadRounds, hround] at hrun
    obtain ⟨rfl, -⟩ := Prod.mk.inj (Option.some.inj hrun)
    rcases hend with hend | hend
    · cases hend
    · cases hend

end Hvf
