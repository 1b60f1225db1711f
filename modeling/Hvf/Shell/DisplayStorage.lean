/-
# `DISPLAY STORAGE` in numeric format

`__display_storage_numeric` in `shell/cmd_display.c`.  It shows words in rows of four and
walks the page tables for the first one; from word to word it counts the host address on, and
walks again where a page begins, but not in the last row.

`frames` is the guest's page mapping.  A word is shown by its guest and host address; the
guest's addresses have 64 bits.  Word `i` of the code is read from `hostAt i`
(`displayNumeric_spec`), which is its translation up to the last row.
-/

import Hvf.Mm.GuestCopy

namespace Hvf

/-- A line on the console: the guest address in front, and the host addresses of its
words. -/
structure Row where
  addr : ℕ
  hosts : List ℕ
deriving DecidableEq, Repr

/-- The words from guest address `addr` on. -/
def wordsFrom (addr : ℕ) : List ℕ → List (ℕ × ℕ)
  | [] => []
  | host :: hosts => (addr, host) :: wordsFrom ((addr + 4) % 2 ^ 64) hosts

/-- **What is displayed**: the rows, and the address in the fault message, if the display
ends with one. -/
structure Shown where
  rows : List Row
  fault : Option ℕ
deriving DecidableEq, Repr

/-- The words shown, each with the guest address and the host address it was read from. -/
def Shown.words (r : Shown) : List (ℕ × ℕ) := r.rows.flatMap fun row => wordsFrom row.addr row.hosts

/-- The inner loop, for a row of `this_len` words: the host addresses of the words, and
`guest_addr` and `host_addr` behind it, no host address if `ret` is set.  `more` says that
`mlen` is not 0. -/
def rowLoop (frames : ℕ → Option ℕ) (more : Bool) : ℕ → ℕ → ℕ → List ℕ × ℕ × Option ℕ
  | 0, guestAddr, hostAddr => ([], guestAddr, some hostAddr)
  | thisLen + 1, guestAddr, hostAddr =>
    let guestAddr' := (guestAddr + 4) % 2 ^ 64
    let host' :=
      if guestAddr' % pageSize ≠ 0 ∨ more = false then some (hostAddr + 4)
      else virt2phyCurrent frames guestAddr'
    match host' with
    | none => ([hostAddr], guestAddr', none)
    | some host' =>
      let (hosts, last) := rowLoop frames more thisLen guestAddr' host'
      (hostAddr :: hosts, last)

/-- The outer loop. -/
def rowsLoop (frames : ℕ → Option ℕ) (mlen guestAddr hostAddr : ℕ) : Shown :=
  if _h : mlen = 0 then ⟨[], none⟩
  else
    let thisLen := min 4 mlen
    let (hosts, guestAddr', hostAddr') :=
      rowLoop frames (mlen - thisLen ≠ 0) thisLen guestAddr hostAddr
    match hostAddr' with
    | none => ⟨[⟨guestAddr, hosts⟩], some guestAddr'⟩
    | some hostAddr' =>
      let r := rowsLoop frames (mlen - thisLen) guestAddr' hostAddr'
      ⟨⟨guestAddr, hosts⟩ :: r.rows, r.fault⟩
termination_by mlen
decreasing_by omega

/-- The count of words that the code makes of `mlen`. -/
def wordCount (mlen : ℕ) : ℕ := if mlen > 4 then mlen / 4 + (if mlen % 4 ≠ 0 then 1 else 0) else 1

/-- `__display_storage_numeric`. -/
def displayNumeric (frames : ℕ → Option ℕ) (guestAddr mlen : ℕ) : Shown :=
  let guestAddr := guestAddr / 4 * 4
  match virt2phyCurrent frames guestAddr with
  | none => ⟨[], some guestAddr⟩
  | some hostAddr => rowsLoop frames (wordCount mlen) guestAddr hostAddr

/-! ### What is asked for -/

/-- The address of word `i` from the word of `addr` on. -/
def wordAddr (addr i : ℕ) : ℕ := (addr / 4 * 4 + 4 * i) % 2 ^ 64

/-- How many words have a byte of the `mlen` bytes from `addr` on, 4 bytes if `mlen`
is 0. -/
def wordsAsked (addr mlen : ℕ) : ℕ := (addr % 4 + (if mlen = 0 then 4 else mlen) + 3) / 4

/-- The words that were asked for are shown, each from where its address translates to,
up to the first one that is not mapped. -/
structure ShowsAsked (frames : ℕ → Option ℕ) (addr mlen : ℕ) (r : Shown) : Prop where
  word : ∀ i p, r.words[i]? = some p → i < wordsAsked addr mlen ∧ p.1 = wordAddr addr i ∧
    virt2phyCurrent frames p.1 = some p.2
  all : r.fault = none → r.words.length = wordsAsked addr mlen
  fault : ∀ g, r.fault = some g → r.words.length < wordsAsked addr mlen ∧
    g = wordAddr addr r.words.length ∧ virt2phyCurrent frames g = none

/-- The first word of the last row. -/
def lastRow (mlen : ℕ) : ℕ := (wordCount mlen - 1) / 4 * 4

/-- The host address that the code has for word `i`. -/
def hostAt (frames : ℕ → Option ℕ) (addr mlen : ℕ) : ℕ → Option ℕ
  | 0 => virt2phyCurrent frames (wordAddr addr 0)
  | i + 1 =>
    (hostAt frames addr mlen i).bind fun host =>
      if wordAddr addr (i + 1) % pageSize ≠ 0 ∨ lastRow mlen < i + 1 then some (host + 4)
      else virt2phyCurrent frames (wordAddr addr (i + 1))

section

variable {frames : ℕ → Option ℕ} {addr mlen : ℕ}

/-- The next word is four bytes on. -/
theorem wordAddr_succ (addr i : ℕ) : (wordAddr addr i + 4) % 2 ^ 64 = wordAddr addr (i + 1) := by
  rw [wordAddr, wordAddr, Nat.mod_add_mod]
  congr 1

/-- The first word is the one the address is in. -/
theorem wordAddr_zero (h : addr < 2 ^ 64) : wordAddr addr 0 = addr / 4 * 4 := by
  rw [wordAddr, Nat.mul_zero, Nat.add_zero, Nat.mod_eq_of_lt (by omega)]

/-- Inside a page the host address goes on with the guest's. -/
theorem virt2phyCurrent_succ (frames : ℕ → Option ℕ) (addr i : ℕ)
    (h : wordAddr addr (i + 1) % pageSize ≠ 0) :
    virt2phyCurrent frames (wordAddr addr (i + 1)) =
      (virt2phyCurrent frames (wordAddr addr i)).map (· + 4) := by
  have hpage : pageSize = 4096 := rfl
  have hnext : wordAddr addr (i + 1) = wordAddr addr i + 4 := by
    rw [← wordAddr_succ] at h ⊢
    rw [hpage] at h
    have hlt : wordAddr addr i < 2 ^ 64 := Nat.mod_lt _ (by decide)
    have hfour : wordAddr addr i % 4 = 0 := by
      rw [wordAddr, Nat.mod_mod_of_dvd _ (by decide)]
      omega
    omega
  have hfour : wordAddr addr i % 4 = 0 := by
    rw [wordAddr, Nat.mod_mod_of_dvd _ (by decide)]
    omega
  rw [hnext] at h ⊢
  rw [hpage] at h
  rw [virt2phyCurrent, virt2phyCurrent, hpage, Option.map_map]
  have hdiv : (wordAddr addr i + 4) / 4096 = wordAddr addr i / 4096 := by omega
  have hmod : (wordAddr addr i + 4) % 4096 = wordAddr addr i % 4096 + 4 := by omega
  rw [hdiv, hmod]
  exact congrArg (fun f => Option.map f _) (funext fun frame => (Nat.add_assoc ..).symm)

/-- The code shows no more words than asked for. -/
theorem wordCount_le (addr mlen : ℕ) : wordCount mlen ≤ wordsAsked addr mlen := by
  unfold wordCount wordsAsked
  split_ifs <;> omega

/-- The last row begins at a word shown. -/
theorem lastRow_lt (mlen : ℕ) : lastRow mlen < wordCount mlen := by
  have hpos : 0 < wordCount mlen := by
    unfold wordCount
    split_ifs <;> omega
  unfold lastRow
  omega

/-! ### The loops -/

/-- The words from `i` to `k`. -/
def wordsAt (frames : ℕ → Option ℕ) (addr mlen i k : ℕ) : List (ℕ × ℕ) :=
  (List.range' i k).map fun j => (wordAddr addr j, (hostAt frames addr mlen j).getD 0)

/-- **Where the next word is read**: four bytes on, unless it begins a page before the last row.
-/
theorem hostAt_of_some {i host : ℕ} (h : hostAt frames addr mlen i = some host) :
    hostAt frames addr mlen (i + 1) =
      if wordAddr addr (i + 1) % pageSize ≠ 0 ∨ lastRow mlen < i + 1 then some (host + 4)
      else virt2phyCurrent frames (wordAddr addr (i + 1)) := by
  rw [hostAt, h, Option.bind_some]

/-- A row has the words up to one that is not mapped. -/
theorem rowLoop_spec {more : Bool} {thisLen i host : ℕ}
    (hmore : ∀ j, i ≤ j → j < i + thisLen → (more = true ↔ j < lastRow mlen))
    (hhost : hostAt frames addr mlen i = some host) :
    ∃ k ≤ thisLen, (0 < thisLen → 0 < k) ∧
      (∀ j < k, hostAt frames addr mlen (i + j) ≠ none) ∧
      wordsFrom (wordAddr addr i) (rowLoop frames more thisLen (wordAddr addr i) host).1 =
        wordsAt frames addr mlen i k ∧
      (rowLoop frames more thisLen (wordAddr addr i) host).2 =
        (wordAddr addr (i + k), hostAt frames addr mlen (i + k)) ∧
      (k < thisLen → hostAt frames addr mlen (i + k) = none) := by
  induction thisLen generalizing i host with
  | zero =>
    refine ⟨0, le_rfl, fun h => h, nofun, rfl, ?_, fun h => absurd h (lt_irrefl 0)⟩
    rw [Nat.add_zero, hhost]
    rfl
  | succ thisLen ih =>
    -- the next host address is that of the code's next word
    have hnext : (if wordAddr addr (i + 1) % pageSize ≠ 0 ∨ more = false then some (host + 4)
        else virt2phyCurrent frames (wordAddr addr (i + 1))) = hostAt frames addr mlen (i + 1) := by
      have hlast : more = false ↔ lastRow mlen < i + 1 := by
        rw [← Bool.not_eq_true, hmore i le_rfl (by omega)]
        omega
      rw [hostAt_of_some hhost]
      simp only [hlast]
    have hword : (wordAddr addr i, host) =
        (wordAddr addr i, (hostAt frames addr mlen i).getD 0) := by rw [hhost, Option.getD_some]
    rw [rowLoop]
    dsimp only
    rw [wordAddr_succ, hnext]
    cases hhost' : hostAt frames addr mlen (i + 1) with
    | none =>
      refine ⟨1, by omega, fun _ => Nat.one_pos, fun j hj => ?_, ?_, ?_, fun _ => hhost'⟩
      · rw [Nat.lt_one_iff.1 hj, Nat.add_zero, hhost]
        exact Option.some_ne_none host
      · exact congrArg (· :: []) hword
      · rw [hhost']
    | some host' =>
      obtain ⟨k, hk, -, hsome, hwords, hend, hfail⟩ :=
        ih (fun j hj hlt => hmore j (by omega) (by omega)) hhost'
      refine ⟨k + 1, by omega, fun _ => Nat.succ_pos k, fun j hj => ?_, ?_, ?_, fun hlt => ?_⟩
      · cases j with
        | zero => rw [Nat.add_zero, hhost]; exact Option.some_ne_none host
        | succ j =>
          rw [← Nat.add_assoc, Nat.add_right_comm]
          exact hsome j (by omega)
      · dsimp only
        rw [wordsFrom, wordAddr_succ, hwords, wordsAt, wordsAt, List.range'_succ, List.map_cons,
          hword]
      · dsimp only
        rw [hend, ← Nat.add_assoc, Nat.add_right_comm]
      · rw [← Nat.add_assoc, Nat.add_right_comm]
        exact hfail (by omega)

/-- In the last row the pages are not walked. -/
theorem hostAt_lastRow {i host : ℕ} (h : hostAt frames addr mlen i = some host)
    (hlast : lastRow mlen < i + 1) : hostAt frames addr mlen (i + 1) = some (host + 4) := by
  rw [hostAt_of_some h, if_pos (Or.inr hlast)]

/-- **What the code shows of the words from `i` on**, `n` of them: those up to the first
whose page is not mapped, each read from where the code thinks it is, and then the fault
message. -/
structure Walks (frames : ℕ → Option ℕ) (addr mlen i n k : ℕ) (r : Shown) : Prop where
  le : k ≤ n
  mapped : ∀ j < k, hostAt frames addr mlen (i + j) ≠ none
  words : r.words = wordsAt frames addr mlen i k
  fault : r.fault = none ∧ k = n ∨
    r.fault = some (wordAddr addr (i + k)) ∧ k < n ∧ hostAt frames addr mlen (i + k) = none

/-- The rows walk over the words, up to the first that is not mapped. -/
theorem rowsLoop_spec {n i host : ℕ} (hn : i + n = wordCount mlen) (hi : i % 4 = 0)
    (hhost : hostAt frames addr mlen i = some host) :
    ∃ k, Walks frames addr mlen i n k (rowsLoop frames n (wordAddr addr i) host) := by
  induction n using Nat.strong_induction_on generalizing i host with
  | _ n ih =>
    by_cases hzero : n = 0
    · subst hzero
      rw [rowsLoop, dif_pos rfl]
      exact ⟨0, le_rfl, nofun, rfl, Or.inl ⟨rfl, rfl⟩⟩
    · rw [rowsLoop, dif_neg hzero]
      have hlast : lastRow mlen = (i + n - 1) / 4 * 4 := by rw [lastRow, hn]
      have hmore : ∀ j, i ≤ j → j < i + min 4 n →
          (decide (n - min 4 n ≠ 0) = true ↔ j < lastRow mlen) := by
        intro j hge hlt
        rw [decide_eq_true_eq, hlast]
        omega
      obtain ⟨k, hk, hpos, hsome, hwords, hend, hfail⟩ := rowLoop_spec hmore hhost
      dsimp only
      generalize rowLoop frames (decide (n - min 4 n ≠ 0)) (min 4 n) (wordAddr addr i) host = row
        at hwords hend
      obtain ⟨hosts, guest', host'⟩ := row
      dsimp only at hwords hend ⊢
      obtain ⟨rfl, rfl⟩ := Prod.mk.inj hend
      cases hnext : hostAt frames addr mlen (i + k) with
      | none =>
        have hlt : k < n := by
          -- behind the last row no page is walked
          by_contra hge
          obtain ⟨m, rfl⟩ : ∃ m, k = m + 1 := ⟨k - 1, by have := hpos (by omega); omega⟩
          obtain ⟨last, hm⟩ := Option.ne_none_iff_exists'.1 (hsome m (Nat.lt_succ_self m))
          have hsucc := hostAt_lastRow hm (by rw [hlast]; omega)
          rw [← Nat.add_assoc] at hnext
          exact nomatch hnext.symm.trans hsucc
        refine ⟨k, hlt.le, hsome, ?_, Or.inr ⟨rfl, hlt, hnext⟩⟩
        simpa [Shown.words] using hwords
      | some host' =>
        have hk' : k = min 4 n := by
          by_contra hne
          exact nomatch hnext.symm.trans (hfail (by omega))
        have hnext' : ∃ k', Walks frames addr mlen (i + k) (n - min 4 n) k'
            (rowsLoop frames (n - min 4 n) (wordAddr addr (i + k)) host') := by
          by_cases hrest : n - min 4 n = 0
          · rw [hrest, rowsLoop, dif_pos rfl]
            exact ⟨0, le_rfl, nofun, rfl, Or.inl ⟨rfl, rfl⟩⟩
          · exact ih _ (by omega) (by omega) (by omega) hnext
        obtain ⟨k', hwalks⟩ := hnext'
        refine ⟨k + k', by have := hwalks.le; omega, fun j hj => ?_, ?_, ?_⟩
        · by_cases hlow : j < k
          · exact hsome j hlow
          · have hmapped := hwalks.mapped (j - k) (by omega)
            rwa [show i + k + (j - k) = i + j by omega] at hmapped
        · have hrest := hwalks.words
          simp only [Shown.words, List.flatMap_cons] at hrest ⊢
          rw [hwords, hrest, wordsAt, wordsAt, wordsAt, ← List.map_append, List.range'_append_1]
        · rw [← Nat.add_assoc]
          exact hwalks.fault.imp (fun h => ⟨h.1, by omega⟩) fun h => ⟨h.1, by omega, h.2.2⟩

/-- **The code shows the words of `hostAt`**, as many as it has counted, up to the first
one without a host address. -/
theorem displayNumeric_spec (frames : ℕ → Option ℕ) (mlen : ℕ) (haddr : addr < 2 ^ 64) :
    ∃ k, Walks frames addr mlen 0 (wordCount mlen) k (displayNumeric frames addr mlen) := by
  have hzero := wordAddr_zero haddr
  rw [displayNumeric, ← hzero]
  cases hstart : virt2phyCurrent frames (wordAddr addr 0) with
  | none => exact ⟨0, Nat.zero_le _, nofun, rfl, Or.inr ⟨rfl, (lastRow_lt mlen).pos, hstart⟩⟩
  | some host => exact rowsLoop_spec (Nat.zero_add _) rfl hstart

/-! ### What is shown -/

/-- Up to the last row, the code has the translation of each word. -/
theorem hostAt_eq {i : ℕ} (hi : i ≤ lastRow mlen)
    (hmapped : ∀ j < i, hostAt frames addr mlen j ≠ none) :
    hostAt frames addr mlen i = virt2phyCurrent frames (wordAddr addr i) := by
  induction i with
  | zero => rfl
  | succ i ih =>
    have hprev := ih (by omega) fun j hj => hmapped j (by omega)
    obtain ⟨host, hhost⟩ := Option.ne_none_iff_exists'.1 (hmapped i (Nat.lt_succ_self i))
    rw [hostAt_of_some hhost]
    by_cases hpage : wordAddr addr (i + 1) % pageSize ≠ 0
    · rw [if_pos (Or.inl hpage), virt2phyCurrent_succ frames addr i hpage, ← hprev, hhost,
        Option.map_some]
    · rw [if_neg (by omega)]

/-- In the last row each word is behind the one before it in the host's storage too. -/
def LastRowTogether (frames : ℕ → Option ℕ) (addr mlen : ℕ) : Prop :=
  ∀ i, lastRow mlen ≤ i → i + 1 < wordCount mlen →
    virt2phyCurrent frames (wordAddr addr (i + 1)) =
      (virt2phyCurrent frames (wordAddr addr i)).map (· + 4)

/-- In a last row that goes on with the host's storage, the code has the translations too. -/
theorem hostAt_eq_of_together (h : LastRowTogether frames addr mlen)
    (hmapped : ∀ j ≤ lastRow mlen, hostAt frames addr mlen j ≠ none) {i : ℕ}
    (hi : i < wordCount mlen) :
    hostAt frames addr mlen i = virt2phyCurrent frames (wordAddr addr i) ∧
      hostAt frames addr mlen i ≠ none := by
  induction i with
  | zero => exact ⟨rfl, hmapped 0 (Nat.zero_le _)⟩
  | succ i ih =>
    by_cases hle : i + 1 ≤ lastRow mlen
    · exact ⟨hostAt_eq hle fun j hj => hmapped j (by omega), hmapped _ hle⟩
    · obtain ⟨hprev, hne⟩ := ih (by omega)
      obtain ⟨host, hhost⟩ := Option.ne_none_iff_exists'.1 hne
      have hnext := hostAt_lastRow hhost (by omega)
      rw [hnext]
      refine ⟨?_, Option.some_ne_none _⟩
      rw [h i (by omega) hi, ← hprev, hhost, Option.map_some]

/-- A word shown is the one at its place, read where the walk is then. -/
theorem getElem?_wordsAt {k i : ℕ} {p : ℕ × ℕ}
    (h : (wordsAt frames addr mlen 0 k)[i]? = some p) :
    i < k ∧ p = (wordAddr addr i, (hostAt frames addr mlen i).getD 0) := by
  rw [wordsAt, List.getElem?_map, Option.map_eq_some_iff] at h
  obtain ⟨j, hj, rfl⟩ := h
  obtain ⟨hlt, hget⟩ := List.getElem?_eq_some_iff.1 hj
  rw [List.length_range'] at hlt
  rw [List.getElem_range', Nat.zero_add, Nat.one_mul] at hget
  rw [← hget]
  exact ⟨hlt, rfl⟩

/-- As many words are shown as asked of the walk. -/
theorem length_wordsAt (k : ℕ) : (wordsAt frames addr mlen 0 k).length = k := by
  rw [wordsAt, List.length_map, List.length_range']

/-- If every word is read where it is, and none is left out, what was asked for is shown. -/
theorem showsAsked_of_walks (hmapped : ∀ i < wordCount mlen,
      (∀ j < i, hostAt frames addr mlen j ≠ none) →
        hostAt frames addr mlen i = virt2phyCurrent frames (wordAddr addr i))
    (hall : wordCount mlen = wordsAsked addr mlen ∨
      ∃ i < wordCount mlen, hostAt frames addr mlen i = none)
    {k : ℕ} {r : Shown} (hwalks : Walks frames addr mlen 0 (wordCount mlen) k r) :
    ShowsAsked frames addr mlen r := by
  have hsome : ∀ j < k, hostAt frames addr mlen j ≠ none := by
    intro j hj
    have hne := hwalks.mapped j hj
    rwa [Nat.zero_add] at hne
  have hlen : r.words.length = k := by rw [hwalks.words, length_wordsAt]
  have hle := wordCount_le addr mlen
  refine ⟨fun i p hp => ?_, fun hnone => ?_, fun g hg => ?_⟩
  · rw [hwalks.words] at hp
    obtain ⟨hlt, rfl⟩ := getElem?_wordsAt hp
    obtain ⟨host, hhost⟩ := Option.ne_none_iff_exists'.1 (hsome i hlt)
    have hi := hwalks.le
    refine ⟨by omega, rfl, ?_⟩
    rw [hhost, Option.getD_some, ← hmapped i (by omega) fun j hj => hsome j (by omega), hhost]
  · obtain ⟨-, rfl⟩ | ⟨hfault, -⟩ := hwalks.fault
    · rw [hlen]
      refine hall.resolve_right ?_
      rintro ⟨i, hi, hunmapped⟩
      exact hsome i hi hunmapped
    · cases hnone.symm.trans hfault
  · obtain ⟨hnone, -⟩ | ⟨hfault, hlt, hunmapped⟩ := hwalks.fault
    · cases hnone.symm.trans hg
    · rw [Nat.zero_add] at hfault hunmapped
      obtain rfl := Option.some.inj (hg.symm.trans hfault)
      rw [hlen]
      exact ⟨by omega, rfl, (hmapped k hlt hsome).symm.trans hunmapped⟩

end

/-- **`DISPLAY STORAGE` shows what was asked for exactly when** a word up to the last row is not
mapped, or the address leaves the count of words as it is and the last row is in one piece of
the host's storage. -/
theorem displayNumeric_showsAsked_iff (frames : ℕ → Option ℕ) {addr : ℕ} (haddr : addr < 2 ^ 64)
    (mlen : ℕ) :
    ShowsAsked frames addr mlen (displayNumeric frames addr mlen) ↔
      (∃ i ≤ lastRow mlen, virt2phyCurrent frames (wordAddr addr i) = none) ∨
        (wordCount mlen = wordsAsked addr mlen ∧ LastRowTogether frames addr mlen) := by
  obtain ⟨k, hwalks⟩ := displayNumeric_spec frames mlen haddr
  have hlast := lastRow_lt mlen
  -- Where the walk ends in front of the last row, a word there is not mapped.
  by_cases hearly : ∃ i ≤ lastRow mlen, hostAt frames addr mlen i = none
  · have hfirst := Nat.find_spec hearly
    have hbefore : ∀ j < Nat.find hearly, hostAt frames addr mlen j ≠ none := fun j hj h =>
      Nat.find_min hearly hj ⟨hj.le.trans hfirst.1, h⟩
    refine iff_of_true (showsAsked_of_walks (fun i _ hsome => ?_)
      (Or.inr ⟨_, hfirst.1.trans_lt hlast, hfirst.2⟩) hwalks)
      (Or.inl ⟨_, hfirst.1, (hostAt_eq hfirst.1 hbefore).symm.trans hfirst.2⟩)
    have hi : i ≤ Nat.find hearly := by
      by_contra hlt
      exact hsome _ (by omega) hfirst.2
    exact hostAt_eq (hi.trans hfirst.1) hsome
  · have hsome : ∀ i ≤ lastRow mlen, hostAt frames addr mlen i ≠ none := fun i hi h =>
      hearly ⟨i, hi, h⟩
    constructor
    · intro h
      have hne (i : ℕ) : hostAt frames addr mlen i ≠ none := by
        induction i with
        | zero => exact hsome 0 (Nat.zero_le _)
        | succ i ih =>
          by_cases hle : i + 1 ≤ lastRow mlen
          · exact hsome _ hle
          · obtain ⟨host, hhost⟩ := Option.ne_none_iff_exists'.1 ih
            rw [hostAt_lastRow hhost (by omega)]
            exact Option.some_ne_none _
      obtain ⟨hnone, rfl⟩ | ⟨-, -, hunmapped⟩ := hwalks.fault
      · refine Or.inr ⟨?_, fun i hge hlt => ?_⟩
        · rw [← h.all hnone, hwalks.words, length_wordsAt]
        · -- what is shown is the translation of both words
          have hword {j host : ℕ} (hj : j < wordCount mlen)
              (hhost : hostAt frames addr mlen j = some host) :
              virt2phyCurrent frames (wordAddr addr j) = some host := by
            have hget : (displayNumeric frames addr mlen).words[j]? =
                some (wordAddr addr j, host) := by
              rw [hwalks.words, wordsAt, List.getElem?_map, List.getElem?_range' (by omega)]
              simp [hhost]
            exact (h.word j _ hget).2.2
          obtain ⟨host, hhost⟩ := Option.ne_none_iff_exists'.1 (hne i)
          rw [hword hlt (hostAt_lastRow hhost (by omega)), hword (by omega) hhost,
            Option.map_some]
      · exact absurd hunmapped (hne _)
    · rintro (⟨i, hi, hunmapped⟩ | ⟨hcount, htogether⟩)
      · exact absurd ((hostAt_eq hi fun j hj => hsome j (by omega)).trans hunmapped) (hsome i hi)
      · exact showsAsked_of_walks (fun i hi _ => (hostAt_eq_of_together htogether hsome hi).1)
          (Or.inl hcount) hwalks

/-- Two words that are all asked for, in one page: both are shown. -/
theorem displayNumeric_showsAsked_iff_two :
    ShowsAsked (fun page => some (page + 1)) 512 8
        (displayNumeric (fun page => some (page + 1)) 512 8) ↔
      (∃ i ≤ lastRow 8, virt2phyCurrent (fun page => some (page + 1)) (wordAddr 512 i) = none) ∨
        (wordCount 8 = wordsAsked 512 8 ∧ LastRowTogether (fun page => some (page + 1)) 512 8) :=
  displayNumeric_showsAsked_iff _ (by decide) 8

/-- The guest's second page is not behind its first: the second word of `DISPLAY STORAGE FFC.8`
is from another page of the host. -/
theorem not_displayNumeric_showsAsked :
    ¬ ∀ (frames : ℕ → Option ℕ) (addr mlen : ℕ), addr < 2 ^ 64 →
      ShowsAsked frames addr mlen (displayNumeric frames addr mlen) := by
  intro h
  have hshows := h (fun page => some (10 - page)) 0xffc 8 (by decide)
  have hword := hshows.word 1 (0x1000, 0xb000) (by simp [displayNumeric, rowsLoop, wordCount,
    virt2phyCurrent, rowLoop, Shown.words, wordsFrom, pageSize, pageShift])
  exact absurd hword.2.2 (by decide)

end Hvf
