/-
# Channel programs of a card reader

A channel fetches the format-0 CCWs of its program from storage, one after the other,
and gives them to a card reader: a read takes the next card of the deck, a no-operation
takes none, and a transfer in channel goes on elsewhere.  After a CCW without the
chain-command flag the program has ended; what the channel cannot do is a check.

The programs here read their own CCWs, so a CCW is fetched only when those before it are
done.  `Reaches` is "comes to in some number of steps": a program that has ended stays as
it is, so that all ends of a program are one (`Reaches.to_end`).
-/

import Mathlib.Tactic

namespace CardReader

/-- **A format-0 channel command word**: command, 24-bit data address, flags and count. -/
structure Ccw where
  cmd : UInt8
  addr : ℕ
  flags : UInt8
  count : ℕ
  deriving DecidableEq

/-- The CCW at `a`. -/
def fetch (mem : ℕ → UInt8) (a : ℕ) : Ccw where
  cmd := mem a
  addr := (mem (a + 1)).toNat * 65536 + (mem (a + 2)).toNat * 256 + (mem (a + 3)).toNat
  flags := mem (a + 4)
  count := (mem (a + 6)).toNat * 256 + (mem (a + 7)).toNat

/-- **A CCW given to the reader**: where it is, what it says, and the card that it took. -/
structure Executed where
  loc : ℕ
  ccw : Ccw
  card : Option ℕ
  deriving DecidableEq

/-- **How the channel program stands**: it runs, it has ended, or a check has stopped it. -/
inductive Status
  | running
  | ended
  | check
  deriving DecidableEq

/-- **A card reader's channel**: storage, where the next CCW is, the next card, what was
done so far, and how the program stands. -/
structure Channel where
  mem : ℕ → UInt8
  next : ℕ
  card : ℕ
  log : List Executed
  status : Status

/-- The first `len` bytes of a card at `dst`. -/
def store (mem : ℕ → UInt8) (dst : ℕ) (card : List UInt8) (len : ℕ) : ℕ → UInt8 :=
  fun a => if dst ≤ a ∧ a < dst + len then card.getD (a - dst) 0 else mem a

/-- A CCW is done. -/
def chain (ccw : Ccw) (s : Channel) : Channel :=
  if ccw.flags &&& 0x40 ≠ 0 then { s with next := s.next + 8 } else { s with status := .ended }

/-- The next CCW. -/
def exec (deck : List (List UInt8)) (s : Channel) : Channel :=
  if s.status ≠ .running then s
  else if s.next % 8 ≠ 0 then { s with status := .check }
  else
    let ccw := fetch s.mem s.next
    if ccw.cmd &&& 0x0f = 0x08 then { s with next := ccw.addr }
    else if ccw.cmd = 0x02 then
      match deck[s.card]? with
      | none => { s with status := .check }
      | some card =>
        let s' := { s with
          mem := store s.mem ccw.addr card (min ccw.count 80)
          card := s.card + 1
          log := s.log ++ [⟨s.next, ccw, some s.card⟩] }
        -- A length other than that of a card ends the program unless SLI is on.
        if ccw.count ≠ 80 ∧ ccw.flags &&& 0x20 = 0 then { s' with status := .check }
        else chain ccw s'
    else if ccw.cmd = 0x03 then chain ccw { s with log := s.log ++ [⟨s.next, ccw, none⟩] }
    else { s with status := .check }

/-- The initial program load: 24 bytes of the first card are at 0, and the channel goes on
at 8. -/
def ipl (deck : List (List UInt8)) (mem : ℕ → UInt8) : Channel :=
  ⟨store mem 0 (deck.headD []) 24, 8, 1, [], .running⟩

/-! ### Runs -/

variable {deck : List (List UInt8)} {s t u : Channel}

/-- The channel comes from `s` to `t`. -/
def Reaches (deck : List (List UInt8)) (s t : Channel) : Prop := ∃ n, (exec deck)^[n] s = t

/-- Every state reaches itself. -/
theorem Reaches.refl (deck : List (List UInt8)) (s : Channel) : Reaches deck s s := ⟨0, rfl⟩

/-- Reaching composes. -/
theorem Reaches.trans (h : Reaches deck s t) (h' : Reaches deck t u) : Reaches deck s u := by
  obtain ⟨n, rfl⟩ := h
  obtain ⟨m, rfl⟩ := h'
  exact ⟨m + n, Function.iterate_add_apply _ m n s⟩

/-- One step reaches its result. -/
theorem Reaches.step (h : exec deck s = t) : Reaches deck s t := ⟨1, h⟩

/-- A program that does not run does nothing. -/
theorem exec_stopped (h : s.status ≠ .running) : exec deck s = s := if_pos h

/-- **What a program comes to on the way to its end.** -/
theorem Reaches.to_end (h : Reaches deck s t) (hend : Reaches deck s u)
    (hstopped : u.status ≠ .running) : Reaches deck t u := by
  obtain ⟨n, rfl⟩ := h
  obtain ⟨m, rfl⟩ := hend
  rcases Nat.le_total n m with hle | hle
  · exact ⟨m - n, by rw [← Function.iterate_add_apply, Nat.sub_add_cancel hle]⟩
  · have hfixed : ∀ k, (exec deck)^[k] ((exec deck)^[m] s) = (exec deck)^[m] s := fun k =>
      Function.iterate_fixed (exec_stopped hstopped) k
    refine ⟨0, ?_⟩
    rw [Function.iterate_zero_apply, ← hfixed (n - m), ← Function.iterate_add_apply,
      Nat.sub_add_cancel hle]

/-- A program that ends nowhere else. -/
theorem Reaches.of_stopped (h : Reaches deck s t) (hstopped : s.status ≠ .running) : t = s := by
  obtain ⟨n, rfl⟩ := h
  exact Function.iterate_fixed (exec_stopped hstopped) n

/-- Chaining records nothing. -/
theorem chain_log (ccw : Ccw) (s : Channel) : (chain ccw s).log = s.log := by
  unfold chain
  split_ifs
  · rfl
  · rfl

/-- What one CCW adds to the log. -/
theorem exec_log (deck : List (List UInt8)) (s : Channel) : (exec deck s).log = s.log ∨
    s.next % 8 = 0 ∧ ∃ card, (exec deck s).log = s.log ++ [⟨s.next, fetch s.mem s.next, card⟩] := by
  unfold exec
  by_cases hrun : s.status ≠ .running
  · rw [if_pos hrun]
    exact Or.inl rfl
  rw [if_neg hrun]
  by_cases halign : s.next % 8 ≠ 0
  · rw [if_pos halign]
    exact Or.inl rfl
  rw [if_neg halign]
  dsimp only
  by_cases htic : (fetch s.mem s.next).cmd &&& 0x0f = 0x08
  · rw [if_pos htic]
    exact Or.inl rfl
  rw [if_neg htic]
  by_cases hread : (fetch s.mem s.next).cmd = 0x02
  · rw [if_pos hread]
    cases deck[s.card]? with
    | none => exact Or.inl rfl
    | some card =>
      refine Or.inr ⟨not_not.1 halign, some s.card, ?_⟩
      dsimp only
      split_ifs
      · rfl
      · exact chain_log _ _
  rw [if_neg hread]
  split_ifs
  · exact Or.inr ⟨not_not.1 halign, none, chain_log _ _⟩
  · exact Or.inl rfl

/-- **The log only grows.** -/
theorem Reaches.log_mono (h : Reaches deck s t) : s.log <+: t.log := by
  obtain ⟨n, rfl⟩ := h
  induction n with
  | zero => exact List.prefix_refl _
  | succ n ih =>
    rw [Function.iterate_succ_apply']
    refine ih.trans ?_
    rcases exec_log deck ((exec deck)^[n] s) with hlog | ⟨-, card, hlog⟩
    · rw [hlog]
    · rw [hlog]
      exact List.prefix_append _ _

/-- **CCWs are on doubleword boundaries.** -/
theorem Reaches.aligned (h : Reaches deck s t) (hlog : ∀ e ∈ s.log, e.loc % 8 = 0) :
    ∀ e ∈ t.log, e.loc % 8 = 0 := by
  obtain ⟨n, rfl⟩ := h
  induction n with
  | zero => exact hlog
  | succ n ih =>
    rw [Function.iterate_succ_apply']
    rcases exec_log deck ((exec deck)^[n] s) with hsame | ⟨halign, card, hone⟩
    · rwa [hsame]
    · rw [hone]
      intro e he
      rcases List.mem_append.1 he with he | he
      · exact ih e he
      · rw [List.mem_singleton.1 he]
        exact halign

/-! ### One CCW -/

/-- With the chaining flag the next CCW is the next doubleword. -/
theorem chain_on {ccw : Ccw} (h : ccw.flags &&& 0x40 ≠ 0) (s : Channel) :
    chain ccw s = { s with next := s.next + 8 } :=
  if_pos h

/-- Without it the program ends. -/
theorem chain_off {ccw : Ccw} (h : ccw.flags &&& 0x40 = 0) (s : Channel) :
    chain ccw s = { s with status := .ended } :=
  if_neg (not_not.2 h)

/-- **A transfer in channel** goes on at its address, whatever its flags. -/
theorem exec_tic {addr count : ℕ} {flags : UInt8} (hrun : s.status = .running)
    (halign : s.next % 8 = 0) (hfetch : fetch s.mem s.next = ⟨0x08, addr, flags, count⟩) :
    exec deck s = { s with next := addr } := by
  have hcmd : (0x08 : UInt8) &&& 0x0f = 0x08 := by decide
  unfold exec
  rw [if_neg (not_not.2 hrun), if_neg (not_not.2 halign), hfetch]
  exact if_pos hcmd

/-- A read of a whole card. -/
theorem exec_read {addr : ℕ} {flags : UInt8} {card : List UInt8} (hrun : s.status = .running)
    (halign : s.next % 8 = 0) (hfetch : fetch s.mem s.next = ⟨0x02, addr, flags, 80⟩)
    (hcard : deck[s.card]? = some card) :
    exec deck s = chain ⟨0x02, addr, flags, 80⟩
      { s with
        mem := store s.mem addr card 80
        card := s.card + 1
        log := s.log ++ [⟨s.next, ⟨0x02, addr, flags, 80⟩, some s.card⟩] } := by
  have hcmd : ¬ (0x02 : UInt8) &&& 0x0f = 0x08 := by decide
  unfold exec
  rw [if_neg (not_not.2 hrun), if_neg (not_not.2 halign), hfetch]
  dsimp only
  rw [if_neg hcmd, if_pos rfl, hcard]
  dsimp only
  rw [if_neg fun h => h.1 rfl, Nat.min_self]

/-- A CCW that transfers nothing is recorded and chained. -/
theorem exec_nop {addr count : ℕ} {flags : UInt8} (hrun : s.status = .running)
    (halign : s.next % 8 = 0) (hfetch : fetch s.mem s.next = ⟨0x03, addr, flags, count⟩) :
    exec deck s = chain ⟨0x03, addr, flags, count⟩
      { s with log := s.log ++ [⟨s.next, ⟨0x03, addr, flags, count⟩, none⟩] } := by
  have hcmd : ¬ (0x03 : UInt8) &&& 0x0f = 0x08 := by decide
  have hread : ¬ (0x03 : UInt8) = 0x02 := by decide
  unfold exec
  rw [if_neg (not_not.2 hrun), if_neg (not_not.2 halign), hfetch]
  dsimp only
  rw [if_neg hcmd, if_neg hread, if_pos rfl]

/-- A command that the reader does not have. -/
theorem exec_unknown (hrun : s.status = .running) (hcmd : s.mem s.next = 0xff) :
    (exec deck s).status = .check := by
  have hfetch : (fetch s.mem s.next).cmd = 0xff := hcmd
  unfold exec
  rw [if_neg (not_not.2 hrun)]
  split_ifs
  · rfl
  · dsimp only
    rw [hfetch]
    rfl

/-- A read of another length without SLI. -/
theorem exec_length (hrun : s.status = .running) (hcmd : (fetch s.mem s.next).cmd = 0x02)
    (hcount : (fetch s.mem s.next).count ≠ 80)
    (hsli : (fetch s.mem s.next).flags &&& 0x20 = 0) : (exec deck s).status = .check := by
  have htic : ¬ (0x02 : UInt8) &&& 0x0f = 0x08 := by decide
  unfold exec
  rw [if_neg (not_not.2 hrun)]
  split_ifs
  · rfl
  · dsimp only
    rw [hcmd, if_neg htic, if_pos rfl]
    cases deck[s.card]? with
    | none => rfl
    | some card =>
      dsimp only
      rw [if_pos ⟨hcount, hsli⟩]

/-! ### Storage -/

/-- A CCW depends on its eight bytes. -/
theorem fetch_congr {mem mem' : ℕ → UInt8} {a : ℕ} (h : ∀ k < 8, mem (a + k) = mem' (a + k)) :
    fetch mem a = fetch mem' a := by
  unfold fetch
  rw [h 1 (by decide), h 2 (by decide), h 3 (by decide), h 4 (by decide), h 6 (by decide),
    h 7 (by decide), show mem a = mem' a from h 0 (by decide)]

/-- A byte of a stored card is the card's, and 0 behind the card's end. -/
theorem store_in {mem : ℕ → UInt8} {dst len k : ℕ} {card : List UInt8} (h : k < len) :
    store mem dst card len (dst + k) = card.getD k 0 := by
  rw [store, if_pos ⟨by omega, by omega⟩, Nat.add_sub_cancel_left]

/-- A stored card touches no other byte. -/
theorem store_out {mem : ℕ → UInt8} {dst len a : ℕ} {card : List UInt8}
    (h : a < dst ∨ dst + len ≤ a) : store mem dst card len a = mem a :=
  if_neg (by omega)

end CardReader
