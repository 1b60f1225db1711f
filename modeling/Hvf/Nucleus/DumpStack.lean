/-
# The stack dump

`dump_stack` of `cp/nucleus/pgm.c`.  From the frame at the register on it follows the back
chain as long as that leads to a frame at or behind the first one in the same page.  A
frame is 160 bytes: `back_chain` at 0, `gpr` at 16 with the return address in `gpr[12]`, at
112.

The loop only looks at where the next frame is, and a chain that comes back to a frame goes
round for ever (`Follow`).  The first test lets the address `memsize` itself through, which
is behind the end of storage.  `memsize` is what the loader has found.
-/

import Hvf.Lib.Follow
import Hvf.Loader.ReadNucleus
import Hvf.Nucleus.SymtabLookup

namespace Hvf

open Bytes Follow

/-- `cur->back_chain`. -/
def backChain (m : Mem) (cur : ℕ) : ℕ := num m cur 8

/-- `cur->gpr[12]`. -/
def returnAddress (m : Mem) (cur : ℕ) : ℕ := num m (cur + 112) 8

/-- **A line of the dump**: the frame it is for, the return address, and the symbol that was
found for it. -/
structure TraceLine where
  frame : ℕ
  ra : ℕ
  symbol : Option (ℕ × ℕ)
  deriving DecidableEq

/-- The loop of `dump_stack`, for at most `fuel` frames, with `k` rounds for each lookup. -/
def dumpFrames (k : ℕ) (m : Mem) (symtab start stop : ℕ) : ℕ → ℕ → Option (List TraceLine)
  | 0, _ => none
  | fuel + 1, cur =>
      if start ≤ cur ∧ cur < stop then do
        let ra := returnAddress m cur
        let (_, symbol) ← symtabLookup k m symtab ra
        if backChain m cur = 0 then some [⟨cur, ra, symbol⟩]
        else
          let lines ← dumpFrames k m symtab start stop fuel (backChain m cur)
          some (⟨cur, ra, symbol⟩ :: lines)
      else some []

/-- `dump_stack`.  The end of the page less a frame is no address beyond 2^64, so `end` needs
no `%`. -/
def dumpStack (k fuel : ℕ) (m : Mem) (symtab memsize : ℕ) (addr : UInt64) :
    Option (List TraceLine) :=
  if memsize < addr.toNat then some []
  else
    let start := addr.toNat / 8 * 8
    dumpFrames k m symtab start (start / 4096 * 4096 + 4096 - 160) fuel start

/-! ### What it is to do -/

/-- The dump ends, and its frames are in the page of the address and in storage. -/
def DumpMeets (m : Mem) (symtab memsize : ℕ) (addr : UInt64) : Prop :=
  ∃ k fuel lines, dumpStack k fuel m symtab memsize addr = some lines ∧ ∀ line ∈ lines,
    addr.toNat / 4096 * 4096 ≤ line.frame ∧
      line.frame + 160 ≤ addr.toNat / 4096 * 4096 + 4096 ∧ line.frame + 160 ≤ memsize

/-- The frame behind one, if the loop goes on with it. -/
def nextFrame (m : Mem) (start stop cur : ℕ) : Option ℕ :=
  if backChain m cur ≠ 0 ∧ start ≤ backChain m cur ∧ backChain m cur < stop then
    some (backChain m cur)
  else none

/-- The address is behind storage, or too near to the end of its page for a frame, or the
frame there is in storage, its chain comes back to no frame, and the symbols of all return
addresses on it can be looked up. -/
def DumpFits (m : Mem) (symtab memsize : ℕ) (addr : UInt64) : Prop :=
  let start := addr.toNat / 8 * 8
  let next := nextFrame m start (start / 4096 * 4096 + 4096 - 160)
  memsize < addr.toNat ∨ 4096 - 160 ≤ addr.toNat % 4096 ∨
    addr.toNat ≠ memsize ∧ Acyclic next start ∧
      ∀ i cur, nth next start i = some cur → LookupEnds m symtab (returnAddress m cur)

variable {m : Mem} {symtab start stop cur k fuel : ℕ}

/-- One frame of the loop. -/
theorem dumpFrames_succ (hin : start ≤ cur ∧ cur < stop) {seen : List ℕ} {symbol : Option (ℕ × ℕ)}
    (hlookup : symtabLookup k m symtab (returnAddress m cur) = some (seen, symbol)) :
    dumpFrames k m symtab start stop (fuel + 1) cur =
      if backChain m cur = 0 then some [⟨cur, returnAddress m cur, symbol⟩]
      else (dumpFrames k m symtab start stop fuel (backChain m cur)).map
        (⟨cur, returnAddress m cur, symbol⟩ :: ·) := by
  rw [dumpFrames, if_pos hin]
  dsimp only
  rw [hlookup]
  by_cases hzero : backChain m cur = 0
  · rw [if_pos hzero]
    exact if_pos hzero
  · rw [if_neg hzero, Option.map_eq_bind]
    exact if_neg hzero

/-- Where a symbol is not found in time, the dump does not end. -/
theorem dumpFrames_stuck (hin : start ≤ cur ∧ cur < stop)
    (hlookup : symtabLookup k m symtab (returnAddress m cur) = none) :
    dumpFrames k m symtab start stop (fuel + 1) cur = none := by
  rw [dumpFrames, if_pos hin]
  dsimp only
  rw [hlookup]
  rfl

/-- A frame outside the stack ends the dump. -/
theorem dumpFrames_out (hout : ¬ (start ≤ cur ∧ cur < stop)) :
    dumpFrames k m symtab start stop (fuel + 1) cur = some [] := if_neg hout

/-- The next frame is the back chain, and within the stack. -/
theorem nextFrame_in {c : ℕ} (h : nextFrame m start stop cur = some c) :
    c = backChain m cur ∧ c ≠ 0 ∧ start ≤ c ∧ c < stop := by
  rw [nextFrame] at h
  split at h
  · rename_i hin
    obtain rfl := Option.some.inj h
    exact ⟨rfl, hin⟩
  · cases h

/-- The frames of the chain are where the loop looks at them. -/
theorem nth_nextFrame_in (hin : start ≤ cur ∧ cur < stop) {i c : ℕ}
    (h : nth (nextFrame m start stop) cur i = some c) : start ≤ c ∧ c < stop := by
  cases i with
  | zero => exact Option.some.inj h ▸ hin
  | succ i =>
    obtain ⟨b, -, hb⟩ := Option.bind_eq_some_iff.1 h
    exact (nextFrame_in hb).2.2

/-- Every line is of a frame within the stack. -/
theorem dumpFrames_in {lines : List TraceLine}
    (h : dumpFrames k m symtab start stop fuel cur = some lines) :
    ∀ line ∈ lines, start ≤ line.frame ∧ line.frame < stop := by
  induction fuel generalizing cur lines with
  | zero => cases h
  | succ fuel ih =>
    by_cases hin : start ≤ cur ∧ cur < stop
    · cases hlookup : symtabLookup k m symtab (returnAddress m cur) with
      | none =>
        rw [dumpFrames_stuck hin hlookup] at h
        cases h
      | some r =>
        rw [dumpFrames_succ hin hlookup] at h
        split at h
        · obtain rfl := Option.some.inj h
          exact List.forall_mem_singleton.2 hin
        · obtain ⟨rest, hrest, rfl⟩ := Option.map_eq_some_iff.1 h
          exact List.forall_mem_cons.2 ⟨hin, ih hrest⟩
    · rw [dumpFrames_out hin] at h
      obtain rfl := Option.some.inj h
      exact fun _ hline => absurd hline List.not_mem_nil

/-- **A dump that ends** has followed the chain to its end. -/
theorem chain_of_dumpFrames {lines : List TraceLine} (hin : start ≤ cur ∧ cur < stop)
    (h : dumpFrames k m symtab start stop fuel cur = some lines) :
    (∃ n, nth (nextFrame m start stop) cur n = none) ∧
      (∀ i c, nth (nextFrame m start stop) cur i = some c →
        LookupEnds m symtab (returnAddress m c)) ∧
      ∃ line ∈ lines, line.frame = cur := by
  induction fuel generalizing cur lines with
  | zero => cases h
  | succ fuel ih =>
    cases hlookup : symtabLookup k m symtab (returnAddress m cur) with
    | none =>
      rw [dumpFrames_stuck hin hlookup] at h
      cases h
    | some r =>
      have hends := (symtabLookup_ends_iff m symtab (returnAddress m cur)).1 ⟨k, r, hlookup⟩
      rw [dumpFrames_succ hin hlookup] at h
      cases hnext : nextFrame m start stop cur with
      | none =>
        refine ⟨⟨1, by rw [nth_cons, hnext]; rfl⟩, fun i c hi => ?_, ?_⟩
        · cases i with
          | zero => exact Option.some.inj hi ▸ hends
          | succ i =>
            rw [nth_cons, hnext] at hi
            cases hi
        · split at h
          · exact ⟨_, Option.some.inj h ▸ List.mem_singleton_self _, rfl⟩
          · obtain ⟨rest, -, rfl⟩ := Option.map_eq_some_iff.1 h
            exact ⟨_, List.mem_cons_self, rfl⟩
      | some b =>
        obtain ⟨rfl, hzero, hin'⟩ := nextFrame_in hnext
        rw [if_neg hzero] at h
        obtain ⟨rest, hrest, rfl⟩ := Option.map_eq_some_iff.1 h
        obtain ⟨⟨n, hn⟩, hall, -⟩ := ih hin' hrest
        refine ⟨⟨n + 1, by rw [nth_cons, hnext]; exact hn⟩, fun i c hi => ?_,
          _, List.mem_cons_self, rfl⟩
        cases i with
        | zero => exact Option.some.inj hi ▸ hends
        | succ i =>
          rw [nth_cons, hnext] at hi
          exact hall i c hi

/-- Enough rounds for the first lookups. -/
theorem exists_rounds {next : ℕ → Option ℕ}
    (h : ∀ i c, nth next cur i = some c → LookupEnds m symtab (returnAddress m c)) (n : ℕ) :
    ∃ k, ∀ i < n, ∀ c, nth next cur i = some c →
      ∃ r, symtabLookup k m symtab (returnAddress m c) = some r := by
  induction n with
  | zero => exact ⟨0, fun i hi => absurd hi (Nat.not_lt_zero i)⟩
  | succ n ih =>
    obtain ⟨k, hk⟩ := ih
    obtain ⟨k', hk'⟩ : ∃ k', ∀ c, nth next cur n = some c →
        ∃ r, symtabLookup k' m symtab (returnAddress m c) = some r := by
      cases hn : nth next cur n with
      | none => exact ⟨0, nofun⟩
      | some c =>
        obtain ⟨k', r, hr⟩ := (symtabLookup_ends_iff m symtab (returnAddress m c)).2 (h n c hn)
        exact ⟨k', fun c' hc' => ⟨r, Option.some.inj hc' ▸ hr⟩⟩
    refine ⟨k + k', fun i hi c hc => ?_⟩
    rcases Nat.lt_succ_iff_lt_or_eq.1 hi with hlt | rfl
    · obtain ⟨r, hr⟩ := hk i hlt c hc
      exact ⟨r, symtabLookup_mono hr k'⟩
    · obtain ⟨r, hr⟩ := hk' c hc
      rw [Nat.add_comm]
      exact ⟨r, symtabLookup_mono hr k⟩

/-- **A chain that ends** is dumped. -/
theorem dumpFrames_of_chain {n : ℕ} (hin : start ≤ cur ∧ cur < stop)
    (hend : nth (nextFrame m start stop) cur n = none)
    (hk : ∀ i < n, ∀ c, nth (nextFrame m start stop) cur i = some c →
      ∃ r, symtabLookup k m symtab (returnAddress m c) = some r) :
    ∃ lines, dumpFrames k m symtab start stop (n + 1) cur = some lines := by
  induction n generalizing cur with
  | zero => cases hend
  | succ n ih =>
    obtain ⟨r, hr⟩ := hk 0 (Nat.succ_pos n) cur rfl
    rw [dumpFrames_succ hin hr]
    by_cases hzero : backChain m cur = 0
    · exact ⟨_, if_pos hzero⟩
    rw [if_neg hzero]
    cases hnext : nextFrame m start stop cur with
    | none =>
      have hout : ¬ (start ≤ backChain m cur ∧ backChain m cur < stop) := fun hin' => by
        rw [nextFrame, if_pos ⟨hzero, hin'⟩] at hnext
        cases hnext
      rw [dumpFrames_out hout]
      exact ⟨_, rfl⟩
    | some b =>
      obtain ⟨rfl, -, hin'⟩ := nextFrame_in hnext
      rw [nth_cons, hnext] at hend
      obtain ⟨lines, hlines⟩ := ih hin' hend fun i hi c hc => hk (i + 1) (by omega) c (by
        rw [nth_cons, hnext]
        exact hc)
      rw [hlines]
      exact ⟨_, rfl⟩

/-- **Exactly when the dump ends and stays inside:** the register is refused, or no frame
fits behind it in its page, or the chain from it, as long as it is inside, comes back to no
frame and every return address is looked up in time. -/
theorem dumpMeets_iff (m : Mem) (symtab : ℕ) (tprot : ℕ → ℕ) (addr : UInt64) :
    DumpMeets m symtab (senseMemsize tprot) addr ↔ DumpFits m symtab (senseMemsize tprot) addr := by
  have hmemsize := senseMemsize_mod tprot
  generalize senseMemsize tprot = memsize at hmemsize ⊢
  unfold DumpMeets DumpFits dumpStack
  generalize addr.toNat = a
  dsimp only
  by_cases hbehind : memsize < a
  · simp only [if_pos hbehind]
    exact iff_of_true ⟨0, 0, [], rfl, fun _ h => absurd h List.not_mem_nil⟩ (Or.inl hbehind)
  simp only [if_neg hbehind]
  by_cases hshort : 4096 - 160 ≤ a % 4096
  · have hout : ¬ (a / 8 * 8 ≤ a / 8 * 8 ∧ a / 8 * 8 < a / 8 * 8 / 4096 * 4096 + 4096 - 160) := by
      omega
    exact iff_of_true ⟨0, 1, [], dumpFrames_out hout, fun _ h => absurd h List.not_mem_nil⟩
      (Or.inr (Or.inl hshort))
  have hin : a / 8 * 8 ≤ a / 8 * 8 ∧ a / 8 * 8 < a / 8 * 8 / 4096 * 4096 + 4096 - 160 := by omega
  have hpage : a / 8 * 8 / 4096 * 4096 = a / 4096 * 4096 := by omega
  rw [hpage] at hin ⊢
  generalize hstop : a / 4096 * 4096 + 4096 - 160 = stop at hin ⊢
  constructor
  · rintro ⟨k, fuel, lines, hrun, hlines⟩
    obtain ⟨hend, hlookups, line, hline, hframe⟩ := chain_of_dumpFrames hin hrun
    have hbelow := (hlines line hline).2.2
    exact Or.inr (Or.inr ⟨by omega, acyclic_of_none hend.choose_spec, hlookups⟩)
  · intro hfits
    obtain ⟨hne, hacyclic, hlookups⟩ := (hfits.resolve_left hbehind).resolve_left hshort
    obtain ⟨n, hn⟩ := (exists_none_iff (Set.finite_Iio stop) fun i c hc =>
      (nth_nextFrame_in hin hc).2).2 hacyclic
    obtain ⟨k, hk⟩ := exists_rounds hlookups n
    obtain ⟨lines, hrun⟩ := dumpFrames_of_chain hin hn hk
    refine ⟨k, n + 1, lines, hrun, fun line hline => ?_⟩
    obtain ⟨hlow, hhigh⟩ := dumpFrames_in hrun line hline
    omega

/-- The storage of a machine with one megabyte. -/
def oneMegabyte (size : ℕ) : ℕ := if size = 0 then 0 else 3

/-- The frame at 4096 is its own caller, and there are no symbols. -/
def ownCaller : Mem := fun a => if a = 4102 then 0x10 else 0

/-- A chain that goes in a circle is followed for ever: nothing makes it shorter from round
to round. -/
theorem not_dumpMeets : ¬ ∀ (m : Mem) (symtab : ℕ) (tprot : ℕ → ℕ) (addr : UInt64),
    DumpMeets m symtab (senseMemsize tprot) addr := by
  intro h
  obtain ⟨k, fuel, lines, hrun, -⟩ := h ownCaller 0 oneMegabyte 4096
  have hmemsize : ¬ senseMemsize oneMegabyte < (4096 : UInt64).toNat := by decide +kernel
  rw [dumpStack, if_neg hmemsize] at hrun
  obtain ⟨⟨n, hn⟩, -⟩ := chain_of_dumpFrames (by decide) hrun
  exact acyclic_of_none hn 0 1 (by decide) (Option.some_ne_none _) (by decide +kernel)

end Hvf
