/-
# The deck loads itself

The CCW cards hold the CCWs that read them, so that their number is right only if it is
a solution of an equation: with `L` cards of LOADER-CCWs, `ccw_gen` prints
`L + ⌈L / 10⌉ - 1` CP-CCWs, and they fill `⌈L / 10⌉` cards only if
`L ≤ 9 * ⌈L / 10⌉ + 1`.
-/

import Hvf.Installer.CcwGen
import Mathlib.Data.List.GetD

namespace Hvf

open CardReader

/-! ### Cards -/

/-- Card `j` of a file. -/
def cardOf (f : List UInt8) (j : ℕ) : List UInt8 :=
  let buf := (f.drop (80 * j)).take 80
  buf ++ List.replicate (80 - buf.length) 0

/-- A byte of a card is the file's byte at its place, and 0 behind the file's end. -/
theorem cardOf_getD (f : List UInt8) (j : ℕ) {k : ℕ} (hk : k < 80) :
    (cardOf f j).getD k 0 = f.getD (80 * j + k) 0 := by
  unfold cardOf
  dsimp only
  simp only [List.getD_eq_getElem?_getD]
  by_cases hin : k < ((f.drop (80 * j)).take 80).length
  · rw [List.getElem?_append_left hin, List.getElem?_take_of_lt hk, List.getElem?_drop]
  · have hlen : ((f.drop (80 * j)).take 80).length = min 80 (f.length - 80 * j) := by
      rw [List.length_take, List.length_drop]
    rw [List.getElem?_append_right (by omega), List.getElem?_eq_none (l := f) (by omega),
      List.getElem?_replicate]
    split_ifs
    · rfl
    · rfl

/-- **The cards of a file.** -/
theorem cat_getElem? {fuel : ℕ} {f : List UInt8} (hfuel : f.length < fuel) (j : ℕ) :
    (cat fuel f)[j]? = if 80 * j < f.length then some (cardOf f j) else none := by
  induction fuel generalizing f j with
  | zero => omega
  | succ fuel ih =>
    have htake : (f.take 80).length = min 80 f.length := List.length_take
    rw [cat]
    by_cases hempty : f.length = 0
    · rw [List.length_eq_zero_iff.1 hempty]
      simp
    · rw [if_pos (by omega)]
      cases j with
      | zero =>
        rw [List.getElem?_cons_zero, if_pos (by omega)]
        simp [cardOf]
      | succ j =>
        rw [List.getElem?_cons_succ]
        by_cases hfull : (f.take 80).length = 80
        · have hdrop : cardOf (f.drop 80) j = cardOf f (j + 1) := by
            unfold cardOf
            rw [List.drop_drop, show 80 + 80 * j = 80 * (j + 1) by omega]
          rw [if_pos hfull, ih (by rw [List.length_drop]; omega), List.length_drop, hdrop]
          by_cases hlt : 80 * (j + 1) < f.length
          · rw [if_pos hlt, if_pos (by omega)]
          · rw [if_neg hlt, if_neg (by omega)]
        · rw [if_neg hfull, List.getElem?_nil, if_neg (by omega)]

/-- A file becomes as many cards as it has beginnings of 80 bytes. -/
theorem cat_length {fuel : ℕ} {f : List UInt8} (hfuel : f.length < fuel) :
    (cat fuel f).length = fileCards f.length := by
  have hcard := cat_getElem? hfuel
  unfold fileCards
  refine le_antisymm ?_ ?_
  · by_contra hgt
    have hnone := hcard ((f.length + 79) / 80)
    rw [if_neg (by omega), List.getElem?_eq_none_iff] at hnone
    exact hgt hnone
  · by_contra hlt
    have hsome := hcard (cat fuel f).length
    rw [if_pos (by omega), List.getElem?_eq_none le_rfl] at hsome
    exact nomatch hsome

/-- Lists of eight bytes, one behind the other. -/
theorem flatten_getD {l : List (List UInt8)} (hlen : ∀ b ∈ l, b.length = 8) (q : ℕ) {k : ℕ}
    (hk : k < 8) : l.flatten.getD (8 * q + k) 0 = (l.getD q []).getD k 0 := by
  induction l generalizing q with
  | nil => simp
  | cons b l ih =>
    have hb : b.length = 8 := hlen b (List.mem_cons_self ..)
    rw [List.flatten_cons]
    simp only [List.getD_eq_getElem?_getD] at ih ⊢
    cases q with
    | zero => rw [List.getElem?_append_left (by omega), List.getElem?_cons_zero]; simp
    | succ q =>
      rw [List.getElem?_append_right (by omega), hb, show 8 * (q + 1) + k - 8 = 8 * q + k by omega,
        ih fun b hb => hlen b (List.mem_cons_of_mem _ hb), List.getElem?_cons_succ]

/-- CCWs of eight bytes each take eight bytes each. -/
theorem flatten_length {l : List (List UInt8)} (hlen : ∀ b ∈ l, b.length = 8) :
    l.flatten.length = 8 * l.length := by
  induction l with
  | nil => rfl
  | cons b l ih =>
    rw [List.flatten_cons, List.length_append, List.length_cons, hlen b (List.mem_cons_self ..),
      ih fun b hb => hlen b (List.mem_cons_of_mem _ hb)]
    omega

/-! ### Addresses -/

/-- **`__add`** below 16 MB. -/
theorem add_spec {x : CcwAddr} (hx : x.Digits) {a : ℕ} (h : x.val + a < 2 ^ 24) :
    ∃ y, _add a x = some y ∧ y.Digits ∧ y.val = x.val + a := by
  obtain ⟨hhi, hmid, hlo⟩ := hx
  unfold CcwAddr.val at h
  unfold _add
  dsimp only
  split_ifs with h₁ h₂ h₃ h₃ h₂ h₃ h₃
  all_goals first
    | omega
    | exact ⟨_, rfl, ⟨by dsimp only; omega, by dsimp only; omega, by dsimp only; omega⟩,
        by simp only [CcwAddr.val]; omega⟩

/-! ### Channel-command words -/

/-- The CCW that the bytes are. -/
def ccwOf (b : List UInt8) : Ccw := fetch (fun k => b.getD k 0) 0

/-- The CCW fetched from storage is the one written there. -/
theorem fetch_eq_ccwOf {mem : ℕ → UInt8} {a : ℕ} {b : List UInt8}
    (h : ∀ k < 8, mem (a + k) = b.getD k 0) : fetch mem a = ccwOf b := by
  have hshift : fetch mem a = fetch (fun k => mem (a + k)) 0 := rfl
  rw [hshift]
  exact fetch_congr fun k hk => by
    rw [Nat.zero_add]
    exact h k hk

/-- **The CCW of a data card, read back**: a read of 80 bytes to the card's address, if that is
six digits. -/
theorem ccwOf_dataCcw {x : CcwAddr} (hx : x.Digits) (flags : UInt8) :
    ccwOf (dataCcw x flags) = ⟨0x02, x.val, flags, 80⟩ := by
  obtain ⟨hhi, hmid, hlo⟩ := hx
  have hval : (UInt8.ofNat x.hi).toNat * 65536 + (UInt8.ofNat x.mid).toNat * 256
      + (UInt8.ofNat x.lo).toNat = x.val := by
    simp only [UInt8.toNat_ofNat', CcwAddr.val]
    omega
  rw [← hval]
  simp [ccwOf, fetch, dataCcw, CcwAddr.bytes]

/-- The CCW that reads the next CCWs is a data CCW with command chaining. -/
theorem cpCcw_eq (x : CcwAddr) : cpCcw x = dataCcw x 0x40 := rfl

/-- The loop for the CP-CCWs. -/
theorem cpCcws_spec {n : ℕ} {x : CcwAddr} (hx : x.Digits) (h : x.val + 80 * n < 2 ^ 24) :
    ∃ l, cpCcws n x = some l ∧ l.length = n ∧ (∀ b ∈ l, b.length = 8) ∧
      ∀ i < n, ccwOf (l.getD i []) = ⟨0x02, x.val + 80 * i, 0x40, 80⟩ := by
  induction n generalizing x with
  | zero => exact ⟨[], rfl, rfl, (fun _ hb => absurd hb List.not_mem_nil), fun i hi => by omega⟩
  | succ n ih =>
    obtain ⟨y, hadd, hy, hval⟩ := add_spec hx (a := 80) (by omega)
    obtain ⟨l, hl, hlen, h8, hccw⟩ := ih hy (by omega)
    refine ⟨cpCcw x :: l, by simp [cpCcws, hadd, hl], by rw [List.length_cons, hlen], ?_, ?_⟩
    · intro b hb
      rcases List.mem_cons.1 hb with rfl | hb
      · rfl
      · exact h8 b hb
    · intro i hi
      cases i with
      | zero => rw [List.getD_cons_zero, cpCcw_eq, ccwOf_dataCcw hx, Nat.mul_zero, Nat.add_zero]
      | succ i =>
        have hnext : x.val + 80 + 80 * i = x.val + 80 * (i + 1) := by omega
        rw [List.getD_cons_succ, hccw i (by omega), hval, hnext]

/-- The loop for the LOADER-CCWs. -/
theorem dataCcws_spec {n : ℕ} {x : CcwAddr} (hx : x.Digits) (h : x.val + 80 * n < 2 ^ 24) :
    ∃ l, dataCcws n x = some l ∧ l.length = n ∧ (∀ b ∈ l, b.length = 8) ∧
      ∀ i < n, ccwOf (l.getD i [])
        = ⟨0x02, x.val + 80 * i, if i + 1 = n then 0 else 0x40, 80⟩ := by
  induction n generalizing x with
  | zero => exact ⟨[], rfl, rfl, (fun _ hb => absurd hb List.not_mem_nil), fun i hi => by omega⟩
  | succ n ih =>
    obtain ⟨y, hadd, hy, hval⟩ := add_spec hx (a := 80) (by omega)
    obtain ⟨l, hl, hlen, h8, hccw⟩ := ih hy (by omega)
    refine ⟨dataCcw x (if n = 0 then 0 else chainFlag) :: l, by simp [dataCcws, hadd, hl],
      by rw [List.length_cons, hlen], ?_, ?_⟩
    · intro b hb
      rcases List.mem_cons.1 hb with rfl | hb
      · rfl
      · exact h8 b hb
    · intro i hi
      cases i with
      | zero =>
        rw [List.getD_cons_zero, ccwOf_dataCcw hx, Nat.mul_zero, Nat.add_zero]
        by_cases hn : n = 0
        · rw [if_pos hn, if_pos (by omega)]
        · rw [if_neg hn, if_neg (by omega), chainFlag]
      | succ i =>
        have hnext : x.val + 80 + 80 * i = x.val + 80 * (i + 1) := by omega
        rw [List.getD_cons_succ, hccw i (by omega), hval, hnext]
        simp only [Nat.add_right_cancel_iff]

/-! ### The generated deck -/

/-- **What `ccw_gen` printed, CCW by CCW**: the first card reads the card of CP-CCWs and
goes there, these read the cards of the others, and those read the file. -/
structure Generated (g : CcwDeck) (dataCards addr ccwAddr : ℕ) : Prop where
  card : g.card.length = 80
  first : fetch (fun k => g.card.getD k 0) 8 = ⟨0x02, ccwAddr, 0x40, 80⟩
  tic : fetch (fun k => g.card.getD k 0) 16 = ⟨0x08, ccwAddr, 0, 0⟩
  cps : g.cps.length = cpRounds dataCards
  nops : g.nops.length = (10 - cpRounds dataCards % 10) % 10
  loaders : g.loaders.length = dataCards
  eight : ∀ b ∈ g.ccws, b.length = 8
  cp : ∀ i < g.cps.length, ccwOf (g.ccws.getD i []) = ⟨0x02, ccwAddr + 80 * (i + 1), 0x40, 80⟩
  nop : ∀ i < g.nops.length,
    ccwOf (g.ccws.getD (g.cps.length + i) []) = ⟨0x03, 8, 0x60, 1⟩
  loader : ∀ i < dataCards, ccwOf (g.ccws.getD (g.cps.length + g.nops.length + i) [])
    = ⟨0x02, addr + 80 * i, if i + 1 = dataCards then 0 else 0x40, 80⟩

/-- The two CCWs on card 0. -/
theorem card_spec {x : CcwAddr} (hx : x.Digits) (psw : Fin 8 → UInt8) :
    (List.ofFn psw ++ pswTail x ++ pad).length = 80 ∧
      fetch (fun k => (List.ofFn psw ++ pswTail x ++ pad).getD k 0) 8
        = ⟨0x02, x.val, 0x40, 80⟩ ∧
      fetch (fun k => (List.ofFn psw ++ pswTail x ++ pad).getD k 0) 16 = ⟨0x08, x.val, 0, 0⟩ := by
  obtain ⟨hhi, hmid, hlo⟩ := hx
  have hval : (UInt8.ofNat x.hi).toNat * 65536 + (UInt8.ofNat x.mid).toNat * 256
      + (UInt8.ofNat x.lo).toNat = x.val := by
    simp only [UInt8.toNat_ofNat', CcwAddr.val]
    omega
  rw [← hval]
  refine ⟨by simp [pswTail, pad, CcwAddr.bytes], ?_, ?_⟩
  · simp [fetch, pswTail, CcwAddr.bytes, List.ofFn_succ, chainFlag]
  · simp [fetch, pswTail, CcwAddr.bytes, List.ofFn_succ, chainFlag]

/-- Rounding a size up to cards and dividing gives the number of cards. -/
theorem roundUp_eq {size : ℕ} (h : size < 2 ^ 24) : roundUp size / 80 = fileCards size := by
  unfold roundUp fileCards
  split_ifs with hmod
  · have hround : (size - size % 80 + 80) % 2 ^ 32 = size - size % 80 + 80 :=
      Nat.mod_eq_of_lt (by omega)
    rw [hround]
    omega
  · omega

/-- **What `ccw_gen` prints** for a file of two cards or more, where no address goes beyond
16 MB. -/
theorem ccwGen_spec (psw : Fin 8 → UInt8) {size : ℕ} {addr ccwAddr : CcwAddr}
    (haddr : addr.Digits) (hccw : ccwAddr.Digits) (htwo : 2 ≤ fileCards size)
    (haddrs : addr.val + 80 * fileCards size < 2 ^ 24)
    (hccws : ccwAddr.val + 80 * (cpRounds (fileCards size) + 1) < 2 ^ 24) :
    ∃ g, ccwGen psw size addr ccwAddr = some g ∧
      Generated g (fileCards size) addr.val ccwAddr.val := by
  have hsize : 80 < size ∧ size < 2 ^ 24 := by
    unfold fileCards at htwo haddrs
    omega
  obtain ⟨y, hadd, hy, hyval⟩ := add_spec hccw (a := 80) (by omega)
  obtain ⟨cps, hcps, hcpsLen, hcps8, hcp⟩ :=
    cpCcws_spec (n := cpRounds (fileCards size)) hy (by omega)
  obtain ⟨loaders, hloaders, hloadersLen, hloaders8, hloader⟩ :=
    dataCcws_spec (n := fileCards size) haddr haddrs
  obtain ⟨hcard, hfirst, htic⟩ := card_spec hccw psw
  have hcards := roundUp_eq hsize.2
  obtain ⟨z, hz⟩ : ∃ z, z = (10 - cpRounds (fileCards size) % 10) % 10 := ⟨_, rfl⟩
  have hzLen : (List.replicate z nopCcw).length = z := List.length_replicate
  refine ⟨⟨List.ofFn psw ++ pswTail ccwAddr ++ pad, cps, List.replicate z nopCcw, loaders⟩, ?_,
    { card := hcard, first := hfirst, tic := htic, cps := hcpsLen, nops := hzLen.trans hz
      loaders := hloadersLen, eight := ?_, cp := ?_, nop := ?_, loader := ?_ }⟩
  · have hlow : size % 2 ^ 32 = size := Nat.mod_eq_of_lt (by omega)
    have hne : size ≠ 0 := by omega
    have hone : fileCards size ≠ 1 := by omega
    unfold ccwGen
    rw [hlow]
    dsimp only
    rw [if_neg hne, hcards, if_neg hone, hadd]
    rw [Option.bind_eq_bind, Option.bind_some, hcps, Option.bind_eq_bind, Option.bind_some, ← hz,
      hloaders]
    rfl
  · intro b hb
    simp only [CcwDeck.ccws, List.mem_append] at hb
    rcases hb with (hb | hb) | hb
    · exact hcps8 b hb
    · rw [List.eq_of_mem_replicate hb]
      rfl
    · exact hloaders8 b hb
  · intro i hi
    dsimp only at hi
    have hnext : y.val + 80 * i = ccwAddr.val + 80 * (i + 1) := by omega
    simp only [CcwDeck.ccws, List.append_assoc]
    rw [List.getD_append _ _ _ _ hi, hcp i (by omega), hnext]
  · intro i hi
    dsimp only at hi
    simp only [CcwDeck.ccws, List.append_assoc]
    rw [List.getD_append_right _ _ _ _ (by omega), Nat.add_sub_cancel_left,
      List.getD_append _ _ _ _ hi, List.getD_replicate _ (by omega)]
    rfl
  · intro i hi
    have hlen : (cps ++ List.replicate z nopCcw).length
        = cps.length + (List.replicate z nopCcw).length := List.length_append
    simp only [CcwDeck.ccws]
    rw [List.getD_append_right _ _ _ _ (by omega), hlen, Nat.add_sub_cancel_left, hloader i hi]

/-! ### The deck -/

variable {g : CcwDeck} {dataCards addr ccwAddr : ℕ} {file archive : List UInt8}

/-- Byte `b` of the CCW cards. -/
def CcwDeck.byte (g : CcwDeck) (b : ℕ) : UInt8 := g.ccws.flatten.getD b 0

/-- The bytes of CCW `q`. -/
theorem Generated.byte_eq (hg : Generated g dataCards addr ccwAddr) (q : ℕ) {k : ℕ} (hk : k < 8) :
    g.byte (8 * q + k) = (g.ccws.getD q []).getD k 0 :=
  flatten_getD hg.eight q hk

/-- The generated file is the PSW and the reads of the first card, then its CCWs. -/
theorem Generated.length (hg : Generated g dataCards addr ccwAddr) :
    g.bytes.length = 80 + 8 * g.ccws.length := by
  rw [CcwDeck.bytes, List.length_append, hg.card, flatten_length hg.eight]

/-- The deck: the cards of the generated CCWs, of the loader, of the archive. -/
theorem deck_eq (g : CcwDeck) (file archive : List UInt8) : g.deck file archive =
    cat (g.bytes.length + 1) g.bytes ++ (cat (file.length + 1) file ++
      cat (archive.length + 1) archive) := by
  simp [CcwDeck.deck, padcat]

/-- The cards of the CCWs are the first card and as many as the CCWs say. -/
theorem Generated.ccwCards_eq (hg : Generated g dataCards addr ccwAddr) :
    (cat (g.bytes.length + 1) g.bytes).length = g.ccwCards + 1 := by
  rw [cat_length (Nat.lt_succ_self _), hg.length, fileCards, CcwDeck.ccwCards]
  omega

/-- Card 0. -/
theorem Generated.deck_head (hg : Generated g dataCards addr ccwAddr) {k : ℕ} (hk : k < 80) :
    ((g.deck file archive).headD []).getD k 0 = g.card.getD k 0 := by
  have hhead : (g.deck file archive).headD [] = cardOf g.bytes 0 := by
    have hzero := cat_getElem? (Nat.lt_succ_self g.bytes.length) 0
    have hlen := hg.length
    rw [if_pos (by omega)] at hzero
    rw [deck_eq, List.headD_eq_head?_getD, List.head?_eq_getElem?,
      List.getElem?_append_left (by rw [hg.ccwCards_eq]; omega), hzero]
    rfl
  have hcard := hg.card
  rw [hhead, cardOf_getD _ _ hk, CcwDeck.bytes, Nat.mul_zero, Nat.zero_add,
    List.getD_append _ _ _ _ (by omega)]

/-- The CCW cards. -/
theorem Generated.deck_ccw (hg : Generated g dataCards addr ccwAddr)
    (file archive : List UInt8) {j : ℕ} (hj : j < g.ccwCards) :
    ∃ card, (g.deck file archive)[j + 1]? = some card ∧
      ∀ k < 80, card.getD k 0 = g.byte (80 * j + k) := by
  have hcard := cat_getElem? (Nat.lt_succ_self g.bytes.length) (j + 1)
  have hlen := hg.length
  have hcards : g.ccwCards = (g.ccws.length + 9) / 10 := rfl
  rw [if_pos (by omega)] at hcard
  refine ⟨cardOf g.bytes (j + 1), ?_, fun k hk => ?_⟩
  · rw [deck_eq, List.getElem?_append_left (by rw [hg.ccwCards_eq]; omega), hcard]
  · have hfirst := hg.card
    have hoff : 80 * (j + 1) + k - 80 = 80 * j + k := by omega
    rw [cardOf_getD _ _ hk, CcwDeck.bytes, List.getD_append_right _ _ _ _ (by omega), hfirst, hoff,
      CcwDeck.byte]

/-- The data cards. -/
theorem Generated.deck_data (hg : Generated g dataCards addr ccwAddr)
    (archive : List UInt8) {i : ℕ} (hi : i < fileCards file.length) :
    (g.deck file archive)[g.ccwCards + 1 + i]? = some (cardOf file i) := by
  have hcard := cat_getElem? (Nat.lt_succ_self file.length) i
  have hcards : fileCards file.length = (file.length + 79) / 80 := rfl
  have hlen : (cat (file.length + 1) file).length = fileCards file.length :=
    cat_length (Nat.lt_succ_self file.length)
  rw [if_pos (by omega)] at hcard
  rw [deck_eq, List.getElem?_append_right (by rw [hg.ccwCards_eq]; omega), hg.ccwCards_eq,
    Nat.add_sub_cancel_left, List.getElem?_append_left (by omega), hcard]

/-! ### How many cards -/

/-- One CP-CCW for each CCW card but the first. -/
def CardsFit (dataCards : ℕ) : Prop :=
  (dataCards + 9) / 10 ≤ 9 * (((dataCards + 9) / 10 + 9) / 10) + 1

/-- Whether the CCWs fit their cards is decided by a comparison. -/
instance (dataCards : ℕ) : Decidable (CardsFit dataCards) := inferInstanceAs (Decidable (_ ≤ _))

/-- The number of CCWs in front of LOADER-CCW 1. -/
def loaderStart (dataCards : ℕ) : ℕ := (cpRounds dataCards + 9) / 10 * 10

/-- The number of cards of CCWs, spelled out: ten to a card, and those that read them. -/
theorem cpRounds_eq (htwo : 2 ≤ dataCards) (hsmall : dataCards < 2 ^ 24) :
    cpRounds dataCards = (dataCards + 9) / 10 + ((dataCards + 9) / 10 + 9) / 10 - 1 := by
  unfold cpRounds
  have hwrap : (dataCards + 9) / 10 + ((dataCards + 9) / 10 + 9) / 10 + (2 ^ 32 - 2)
      = (dataCards + 9) / 10 + ((dataCards + 9) / 10 + 9) / 10 - 2 + 2 ^ 32 := by omega
  rw [hwrap, Nat.add_mod_right, Nat.mod_eq_of_lt (by omega)]
  omega

/-- **The number of CCW cards**, and the solution that the formula has to be. -/
theorem Generated.cards (hg : Generated g dataCards addr ccwAddr) (htwo : 2 ≤ dataCards)
    (hsmall : dataCards < 2 ^ 24) : g.cps.length + g.nops.length = loaderStart dataCards ∧
      1 ≤ g.cps.length ∧ g.cps.length + 1 ≤ g.ccwCards ∧
      (g.cps.length + 1 = g.ccwCards ↔ CardsFit dataCards) := by
  have hlen : g.ccws.length = g.cps.length + g.nops.length + g.loaders.length := by
    simp only [CcwDeck.ccws, List.length_append]
  have hrounds := cpRounds_eq htwo hsmall
  have hcps := hg.cps
  have hnops := hg.nops
  have hloaders := hg.loaders
  unfold CardsFit CcwDeck.ccwCards loaderStart
  omega

/-! ### The channel program -/

/-- **The channel is at CCW `q` of those at `ccwAddr`**, with `card` the next card and `log`
what it has done. This is the invariant of the deck's run. -/
structure AtCcw (deck : List (List UInt8)) (start : Channel) (ccwAddr q card : ℕ)
    (log : List Executed) (t : Channel) : Prop where
  reaches : Reaches deck start t
  running : t.status = .running
  next : t.next = ccwAddr + 8 * q
  card : t.card = card
  log : t.log = log

/-- The flag of the CCWs that read cards chains. -/
theorem chain_cp : (0x40 : UInt8) &&& 0x40 ≠ 0 := by decide

/-- The flag of the last CCW does not chain. -/
theorem chain_last : (0 : UInt8) &&& 0x40 = 0 := by decide

/-- The flag of the CCW that reads nothing chains, too. -/
theorem chain_nop : (0x60 : UInt8) &&& 0x40 ≠ 0 := by decide

/-- CP-CCW 1 on the log. -/
def firstExecuted (ccwAddr : ℕ) : Executed := ⟨8, ⟨0x02, ccwAddr, 0x40, 80⟩, some 1⟩

/-- The CCW at a place where its bytes are. -/
theorem Generated.fetch_ccw (hg : Generated g dataCards addr ccwAddr) {mem : ℕ → UInt8} {a q : ℕ}
    (h : ∀ k < 8, mem (a + k) = g.byte (8 * q + k)) : fetch mem a = ccwOf (g.ccws.getD q []) :=
  fetch_eq_ccwOf fun k hk => (h k hk).trans (hg.byte_eq q hk)

variable {mem : ℕ → UInt8}

/-- CP-CCW 1. -/
theorem Generated.first_ccw (hg : Generated g dataCards addr ccwAddr)
    (file archive : List UInt8) (mem : ℕ → UInt8) (hcards : 2 ≤ g.ccwCards) :
    ∃ t, Reaches (g.deck file archive) (ipl (g.deck file archive) mem) t ∧ t.status = .running ∧
      t.next = 16 ∧ t.card = 2 ∧ (∀ b < 80, t.mem (ccwAddr + b) = g.byte b) ∧
      (∀ a < 24, a < ccwAddr → t.mem a = g.card.getD a 0) ∧ t.log = [firstExecuted ccwAddr] := by
  have hhead : ∀ a < 24, (ipl (g.deck file archive) mem).mem a = g.card.getD a 0 := fun a ha => by
    have hin := @store_in mem 0 24 a ((g.deck file archive).headD []) ha
    rw [Nat.zero_add] at hin
    exact hin.trans (hg.deck_head (by omega))
  obtain ⟨card, hcard, hbytes⟩ := hg.deck_ccw file archive (j := 0) (by omega)
  have hfetch : fetch (ipl (g.deck file archive) mem).mem 8 = ⟨0x02, ccwAddr, 0x40, 80⟩ :=
    (fetch_congr fun k hk => hhead (8 + k) (by omega)).trans hg.first
  have halign : (ipl (g.deck file archive) mem).next % 8 = 0 := Nat.mod_self 8
  have hexec := exec_read (s := ipl (g.deck file archive) mem) rfl halign hfetch hcard
  rw [chain_on chain_cp] at hexec
  refine ⟨_, Reaches.step hexec, rfl, rfl, rfl, fun b hb => ?_, fun a ha hlow => ?_, rfl⟩
  · rw [← Nat.zero_add b, ← Nat.mul_zero 80, ← hbytes b hb, Nat.mul_zero, Nat.zero_add]
    exact store_in hb
  · exact (store_out (Or.inl hlow)).trans (hhead a ha)

/-- **The CP-CCWs read one CCW card each.** -/
theorem Generated.cp_ccws (hg : Generated g dataCards addr ccwAddr)
    (file archive : List UInt8) (mem : ℕ → UInt8) (haligned : ccwAddr % 8 = 0)
    (hlow : ccwAddr = 16 ∨ 24 ≤ ccwAddr) (hone : 1 ≤ g.cps.length)
    (hcards : g.cps.length + 1 ≤ g.ccwCards) {i : ℕ} (hi : i ≤ g.cps.length) :
    ∃ t, AtCcw (g.deck file archive) (ipl (g.deck file archive) mem) ccwAddr i (i + 2)
        (firstExecuted ccwAddr :: (List.range i).map (cpExecuted ccwAddr)) t ∧
      ∀ b < 80 * (i + 1), t.mem (ccwAddr + b) = g.byte b := by
  induction i with
  | zero =>
    obtain ⟨t, hreach, hrun, hnext, hcard, hslot, hhead, hlog⟩ :=
      hg.first_ccw file archive mem (by omega)
    rcases hlow with h16 | h24
    · exact ⟨t, ⟨hreach, hrun, by omega, hcard, hlog⟩, hslot⟩
    · have hfetch : fetch t.mem t.next = ⟨0x08, ccwAddr, 0, 0⟩ := by
        rw [hnext]
        exact (fetch_congr fun k hk => hhead (16 + k) (by omega) (by omega)).trans hg.tic
      have hexec : exec (g.deck file archive) t = { t with next := ccwAddr } :=
        exec_tic hrun (by rw [hnext]) hfetch
      exact ⟨_, ⟨hreach.trans (Reaches.step hexec), hrun, rfl, hcard, hlog⟩, hslot⟩
  | succ i ih =>
    obtain ⟨t, ht, hslots⟩ := ih (by omega)
    obtain ⟨card, hcard, hbytes⟩ :=
      hg.deck_ccw file archive (j := i + 1) (by omega)
    have hfetch : fetch t.mem t.next = ⟨0x02, ccwAddr + 80 * (i + 1), 0x40, 80⟩ := by
      rw [ht.next, hg.fetch_ccw (q := i) fun k hk => ?_, hg.cp i (by omega)]
      rw [Nat.add_assoc]
      exact hslots (8 * i + k) (by omega)
    have halign : t.next % 8 = 0 := by
      rw [ht.next]
      omega
    rw [← ht.card] at hcard
    have hexec := exec_read ht.running halign hfetch hcard
    rw [chain_on chain_cp] at hexec
    refine ⟨_, ⟨ht.reaches.trans (Reaches.step hexec), ht.running, ?_, ?_, ?_⟩, fun b hb => ?_⟩
    · show t.next + 8 = _
      rw [ht.next]
      omega
    · show t.card + 1 = _
      rw [ht.card]
    · show t.log ++ _ = _
      rw [ht.log, ht.next, ht.card, List.range_succ, List.map_append]
      rfl
    · by_cases hold : b < 80 * (i + 1)
      · exact (store_out (Or.inl (by omega))).trans (hslots b hold)
      · obtain ⟨k, rfl⟩ := Nat.exists_eq_add_of_le (Nat.not_lt.1 hold)
        rw [← hbytes k (by omega), ← Nat.add_assoc]
        exact store_in (by omega)

/-- **Execution runs through the NOPs.** -/
theorem Generated.nop_ccws (hg : Generated g dataCards addr ccwAddr)
    (file archive : List UInt8) (mem : ℕ → UInt8) (haligned : ccwAddr % 8 = 0)
    (hlow : ccwAddr = 16 ∨ 24 ≤ ccwAddr) (hone : 1 ≤ g.cps.length)
    (hcards : g.cps.length + 1 ≤ g.ccwCards) {i : ℕ} (hi : i ≤ g.nops.length) :
    ∃ t, AtCcw (g.deck file archive) (ipl (g.deck file archive) mem) ccwAddr (g.cps.length + i)
        (g.cps.length + 2)
        (firstExecuted ccwAddr :: (List.range g.cps.length).map (cpExecuted ccwAddr) ++
          (List.range i).map fun i => nopExecuted ccwAddr (g.cps.length + i)) t ∧
      ∀ b < 80 * (g.cps.length + 1), t.mem (ccwAddr + b) = g.byte b := by
  induction i with
  | zero =>
    obtain ⟨t, ht, hslots⟩ := hg.cp_ccws file archive mem
      haligned hlow hone hcards le_rfl
    exact ⟨t, ⟨ht.reaches, ht.running, ht.next, ht.card, by rw [ht.log]; simp⟩, hslots⟩
  | succ i ih =>
    obtain ⟨t, ht, hslots⟩ := ih (by omega)
    have hnops := hg.nops
    have hfetch : fetch t.mem t.next = ⟨0x03, 8, 0x60, 1⟩ := by
      rw [ht.next, hg.fetch_ccw (q := g.cps.length + i) fun k hk => ?_, hg.nop i (by omega)]
      rw [Nat.add_assoc]
      exact hslots _ (by omega)
    have halign : t.next % 8 = 0 := by
      rw [ht.next]
      omega
    have hexec := @exec_nop (g.deck file archive) t _ _ _ ht.running halign hfetch
    rw [chain_on chain_nop] at hexec
    refine ⟨_, ⟨ht.reaches.trans (Reaches.step hexec), ht.running, ?_, ht.card, ?_⟩, hslots⟩
    · show t.next + 8 = _
      rw [ht.next]
      omega
    · show t.log ++ _ = _
      rw [ht.log, ht.next, List.range_succ, List.map_append, List.append_assoc]
      rfl

/-- When LOADER-CCW `j + 1` is fetched, no data card was read over it. -/
def CcwIntact (dataCards addr ccwAddr j : ℕ) : Prop :=
  addr + 80 * j ≤ ccwAddr + 8 * loaderStart dataCards + 8 * j ∨
    ccwAddr + 8 * loaderStart dataCards + 8 * j + 8 ≤ addr

/-- The log up to LOADER-CCW `i + 1`. -/
def CcwDeck.logUpTo (g : CcwDeck) (dataCards addr ccwAddr i : ℕ) : List Executed :=
  firstExecuted ccwAddr :: (List.range g.cps.length).map (cpExecuted ccwAddr) ++
    (List.range g.nops.length).map (fun i => nopExecuted ccwAddr (g.cps.length + i)) ++
    (List.range i).map fun i => loaderExecuted dataCards addr ccwAddr
      (g.cps.length + g.nops.length + i) (g.ccwCards + 1 + i) i

/-- The channel is at LOADER-CCW `i + 1`: the cards before are in place, and the CCWs are
where no card was read over them. -/
structure AtLoader (g : CcwDeck) (file : List UInt8) (deck : List (List UInt8)) (start : Channel)
    (dataCards addr ccwAddr i : ℕ) (t : Channel) : Prop where
  at_ccw : AtCcw deck start ccwAddr (g.cps.length + g.nops.length + i) (g.ccwCards + 1 + i)
    (g.logUpTo dataCards addr ccwAddr i) t
  data : ∀ k < 80 * i, t.mem (addr + k) = file.getD k 0
  ccws : ∀ b < 80 * g.ccwCards, ccwAddr + b < addr ∨ addr + 80 * i ≤ ccwAddr + b →
    t.mem (ccwAddr + b) = g.byte b

/-- **LOADER-CCW `i + 1` reads data card `i`** if it is still there. -/
theorem Generated.loader_ccw (hg : Generated g dataCards addr ccwAddr) (haligned : ccwAddr % 8 = 0)
    (htwo : 2 ≤ dataCards) (hsmall : dataCards < 2 ^ 24)
    (hfile : fileCards file.length = dataCards) {i : ℕ} (hi : i < dataCards) {t : Channel}
    (ht : AtLoader g file (g.deck file archive) (ipl (g.deck file archive) mem) dataCards addr
      ccwAddr i t) (hclear : i = 0 ∨ CcwIntact dataCards addr ccwAddr i) :
    ∃ u : Channel,
      exec (g.deck file archive) t = chain ⟨0x02, addr + 80 * i,
        if i + 1 = dataCards then 0 else 0x40, 80⟩ u ∧ u.status = .running ∧ u.next = t.next ∧
      u.card = t.card + 1 ∧ u.log = g.logUpTo dataCards addr ccwAddr (i + 1) ∧
      (∀ k < 80 * (i + 1), u.mem (addr + k) = file.getD k 0) ∧
      ∀ b < 80 * g.ccwCards, ccwAddr + b < addr ∨ addr + 80 * (i + 1) ≤ ccwAddr + b →
        u.mem (ccwAddr + b) = g.byte b := by
  obtain ⟨hstart, -, -, -⟩ := hg.cards htwo hsmall
  have hlen : g.ccws.length = g.cps.length + g.nops.length + g.loaders.length := by
    simp only [CcwDeck.ccws, List.length_append]
  have hloaders := hg.loaders
  have hcards : g.ccwCards = (g.ccws.length + 9) / 10 := rfl
  obtain ⟨⟨-, hrun, hnext, hcard, hlog⟩, hdata, hccws⟩ := ht
  have hfetch : fetch t.mem t.next
      = ⟨0x02, addr + 80 * i, if i + 1 = dataCards then 0 else 0x40, 80⟩ := by
    rw [hnext, hg.fetch_ccw (q := g.cps.length + g.nops.length + i) fun k hk => ?_, hg.loader i hi]
    rw [Nat.add_assoc]
    refine hccws _ (by omega) ?_
    unfold CcwIntact at hclear
    omega
  have halign : t.next % 8 = 0 := by
    rw [hnext]
    omega
  have hread := hg.deck_data archive (hi.trans_eq hfile.symm)
  rw [← hcard] at hread
  refine ⟨_, exec_read hrun halign hfetch hread, hrun, rfl, rfl, ?_, fun k hk => ?_,
    fun b hb hout => ?_⟩
  · show t.log ++ _ = _
    rw [hlog, hnext, hcard, CcwDeck.logUpTo, CcwDeck.logUpTo, List.range_succ, List.map_append,
      ← List.append_assoc]
    rfl
  · by_cases hold : k < 80 * i
    · exact (store_out (Or.inl (by omega))).trans (hdata k hold)
    · obtain ⟨k, rfl⟩ := Nat.exists_eq_add_of_le (Nat.not_lt.1 hold)
      rw [← cardOf_getD file i (by omega), ← Nat.add_assoc]
      exact store_in (by omega)
  · exact (store_out (by omega)).trans (hccws b hb (by omega))

/-- **The LOADER-CCWs read the data cards**, as long as none is read over a CCW that is
still to come. -/
theorem Generated.loader_ccws (hg : Generated g dataCards addr ccwAddr)
    (file archive : List UInt8) (mem : ℕ → UInt8) (haligned : ccwAddr % 8 = 0)
    (hlow : ccwAddr = 16 ∨ 24 ≤ ccwAddr) (htwo : 2 ≤ dataCards)
    (hsmall : dataCards < 2 ^ 24) (hfile : fileCards file.length = dataCards)
    (hexact : g.cps.length + 1 = g.ccwCards) {i : ℕ} (hi : i < dataCards)
    (hintact : ∀ j < i, j = 0 ∨ CcwIntact dataCards addr ccwAddr j) :
    ∃ t, AtLoader g file (g.deck file archive) (ipl (g.deck file archive) mem) dataCards addr
      ccwAddr i t := by
  obtain ⟨-, hone, hcards, -⟩ := hg.cards htwo hsmall
  induction i with
  | zero =>
    obtain ⟨t, ht, hslots⟩ := hg.nop_ccws file archive mem
      haligned hlow hone hcards le_rfl
    refine ⟨t, ⟨ht.reaches, ht.running, ht.next, ?_, ?_⟩, fun k hk => by omega, fun b hb _ => ?_⟩
    · rw [ht.card]
      omega
    · rw [ht.log]
      simp [CcwDeck.logUpTo]
    · exact hslots b (by omega)
  | succ i ih =>
    obtain ⟨t, ht⟩ := ih (by omega) fun j hj => hintact j (by omega)
    obtain ⟨u, hexec, hrun, hnext, hcard, hlog, hdata, hccws⟩ :=
      hg.loader_ccw haligned htwo hsmall hfile (by omega) ht (hintact i (by omega))
    rw [if_neg (by omega), chain_on chain_cp] at hexec
    refine ⟨_, ⟨ht.at_ccw.reaches.trans (Reaches.step hexec), hrun, ?_, ?_, hlog⟩, hdata, hccws⟩
    · show u.next + 8 = _
      rw [hnext, ht.at_ccw.next]
      omega
    · show u.card = _
      rw [hcard, ht.at_ccw.card]
      omega

/-! ### When the deck loads itself -/

/-- The deck of `dataCards` data cards loads itself at these addresses: there are as many
CP-CCWs as cards for them to read, the CCWs are on a doubleword boundary and not over those
that IPL reads, and the file is not over LOADER-CCWs still to come. -/
structure DeckFits (dataCards addr ccwAddr : ℕ) : Prop where
  cards : CardsFit dataCards
  aligned : ccwAddr % 8 = 0
  low : ccwAddr = 16 ∨ 24 ≤ ccwAddr
  apart : addr + 72 * (dataCards - 1) ≤ ccwAddr + 8 * loaderStart dataCards ∨
    ccwAddr + 8 * loaderStart dataCards + 8 * dataCards ≤ addr

/-- The data cards keep apart exactly when none is read over a CCW still to come. -/
theorem intact_iff (htwo : 2 ≤ dataCards) :
    (∀ j < dataCards, j = 0 ∨ CcwIntact dataCards addr ccwAddr j) ↔
      (addr + 72 * (dataCards - 1) ≤ ccwAddr + 8 * loaderStart dataCards ∨
        ccwAddr + 8 * loaderStart dataCards + 8 * dataCards ≤ addr) := by
  unfold CcwIntact
  generalize ccwAddr + 8 * loaderStart dataCards = p
  constructor
  · intro h
    have hlast := h (dataCards - 1) (by omega)
    omega
  · intro h j hj
    omega

/-- The deck loads itself. -/
theorem DeckFits.loads (hfits : DeckFits dataCards addr ccwAddr)
    (hg : Generated g dataCards addr ccwAddr) (htwo : 2 ≤ dataCards) (hsmall : dataCards < 2 ^ 24)
    (hfile : fileCards file.length = dataCards) : LoadsItself g file addr ccwAddr := by
  have hexact := (hg.cards htwo hsmall).2.2.2.2 hfits.cards
  have hintact := (intact_iff htwo).2 hfits.apart
  refine ⟨hexact, fun archive mem => ?_⟩
  obtain ⟨t, ht⟩ := hg.loader_ccws file archive mem hfits.aligned hfits.low htwo
    hsmall hfile hexact (i := dataCards - 1) (by omega) fun j hj => hintact j (by omega)
  obtain ⟨u, hexec, -, -, -, hlog, hdata, -⟩ := hg.loader_ccw hfits.aligned htwo hsmall hfile
    (by omega) ht (hintact _ (by omega))
  have hlast : dataCards - 1 + 1 = dataCards := by omega
  rw [if_pos hlast, chain_off chain_last] at hexec
  rw [hlast] at hlog hdata
  have hcards : dataCards = (file.length + 79) / 80 := hfile.symm
  refine ⟨_, ht.at_ccw.reaches.trans (Reaches.step hexec), rfl, ?_, fun k hk => hdata k (by omega)⟩
  rw [hfile]
  exact hlog

/-- A CCW that ends the program in a check. -/
theorem not_loads_of_check {archive : List UInt8} {mem : ℕ → UInt8} {t : Channel}
    (hreach : Reaches (g.deck file archive) (ipl (g.deck file archive) mem) t)
    (hcheck : (exec (g.deck file archive) t).status = .check) :
    ¬ LoadsItself g file addr ccwAddr := by
  intro hloads
  obtain ⟨u, hu, hended, -⟩ := hloads.runs archive mem
  have hend := (hreach.trans (Reaches.step rfl)).to_end hu (by rw [hended]; decide)
  have hsame := hend.of_stopped (by rw [hcheck]; decide)
  rw [hsame, hcheck] at hended
  exact nomatch hended

/-- A file of zeros with one byte of ones. -/
def markedFile (size o : ℕ) : List UInt8 := (List.replicate size 0).set o 0xff

/-- The file of the example has the size asked for. -/
theorem markedFile_length (size o : ℕ) : (markedFile size o).length = size := by
  rw [markedFile, List.length_set, List.length_replicate]

/-- Its one byte that is not zero is the marked one. -/
theorem markedFile_getD {size o : ℕ} (ho : o < size) (k : ℕ) :
    (markedFile size o).getD k 0 = if k = o then 0xff else 0 := by
  unfold markedFile
  rw [List.getD_eq_getElem?_getD]
  by_cases hk : k = o
  · rw [if_pos hk, hk, List.getElem?_set_self (by rw [List.length_replicate]; exact ho)]
    rfl
  · rw [if_neg hk, List.getElem?_set_ne (Ne.symm hk), List.getElem?_replicate]
    split_ifs
    · rfl
    · rfl

/-- **A data card read over a CCW that is still to come** breaks the program for some file. -/
theorem Generated.intact_of_loads (hg : Generated g dataCards addr ccwAddr)
    (haligned : ccwAddr % 8 = 0) (hlow : ccwAddr = 16 ∨ 24 ≤ ccwAddr) (htwo : 2 ≤ dataCards)
    (hsmall : dataCards < 2 ^ 24) {size : ℕ} (hsize : fileCards size = dataCards)
    (hexact : g.cps.length + 1 = g.ccwCards)
    (hloads : ∀ file : List UInt8, file.length = size → LoadsItself g file addr ccwAddr) {j : ℕ}
    (hj : j < dataCards) : j = 0 ∨ CcwIntact dataCards addr ccwAddr j := by
  induction j using Nat.strong_induction_on with
  | _ j ih =>
    have hcards : (size + 79) / 80 = dataCards := hsize
    have hstart := (hg.cards htwo hsmall).1
    by_contra hnot
    rw [not_or, CcwIntact, not_or] at hnot
    obtain ⟨hne, hover, hover'⟩ := hnot
    -- The byte of the CCW that is to change: its command, or the end of its count.
    obtain ⟨o, ho, hoff⟩ : ∃ o, o < 80 * j ∧
        (addr + o = ccwAddr + 8 * (g.cps.length + g.nops.length + j) ∨
          addr + o = ccwAddr + 8 * (g.cps.length + g.nops.length + j) + 7 ∧
            ccwAddr + 8 * (g.cps.length + g.nops.length + j) < addr) := by
      by_cases hle : addr ≤ ccwAddr + 8 * (g.cps.length + g.nops.length + j)
      · exact ⟨_, by omega, Or.inl (Nat.add_sub_cancel' hle)⟩
      · exact ⟨_, by omega, Or.inr ⟨Nat.add_sub_cancel' (by omega), by omega⟩⟩
    have hmark := @markedFile_getD size o (by omega)
    have hlen : (markedFile size o).length = size := markedFile_length size o
    obtain ⟨t, ht⟩ := hg.loader_ccws (markedFile size o) []
      (fun _ => 0) haligned hlow htwo hsmall (by rw [hlen, hsize]) hexact hj
      fun i hi => ih i hi (by omega)
    refine not_loads_of_check ht.at_ccw.reaches ?_ (hloads _ hlen)
    have hnext := ht.at_ccw.next
    have hmarked : t.mem (addr + o) = 0xff := by
      rw [ht.data o ho, hmark, if_pos rfl]
    rcases hoff with hcmd | ⟨hcount, hlater⟩
    · refine exec_unknown ht.at_ccw.running ?_
      rw [hnext, ← hcmd, hmarked]
    · have hloader := hg.loader j hj
      have hbytes := fun (k : ℕ) (hk : k < 8) =>
        hg.byte_eq (g.cps.length + g.nops.length + j) hk
      have hlen' : g.ccws.length = g.cps.length + g.nops.length + g.loaders.length := by
        simp only [CcwDeck.ccws, List.length_append]
      have hloaders := hg.loaders
      have hslots : g.ccwCards = (g.ccws.length + 9) / 10 := rfl
      refine exec_length ht.at_ccw.running ?_ ?_ ?_
      · show t.mem t.next = 0x02
        have hhere := ht.ccws (8 * (g.cps.length + g.nops.length + j)) (by omega) (Or.inl hlater)
        have hfirst := hbytes 0 (by decide)
        rw [Nat.add_zero] at hfirst
        rw [hnext, hhere, hfirst]
        exact congrArg Ccw.cmd hloader
      · show (t.mem (t.next + 6)).toNat * 256 + (t.mem (t.next + 7)).toNat ≠ 80
        rw [hnext, ← hcount, hmarked]
        have hones : (0xff : UInt8).toNat = 255 := rfl
        omega
      · show t.mem (t.next + 4) &&& 0x20 = 0
        rw [hnext]
        by_cases hin : ccwAddr + 8 * (g.cps.length + g.nops.length + j) + 4 < addr
        · rw [Nat.add_assoc] at hin ⊢
          rw [ht.ccws _ (by omega) (Or.inl hin), hbytes 4 (by decide)]
          have hflags := congrArg Ccw.flags hloader
          change (g.ccws.getD (g.cps.length + g.nops.length + j) []).getD 4 0 = _ at hflags
          rw [hflags]
          dsimp only
          split_ifs
          · decide
          · decide
        · obtain ⟨k, hk⟩ := Nat.exists_eq_add_of_le (Nat.not_lt.1 hin)
          rw [hk, ht.data k (by omega), hmark, if_neg (by omega)]
          decide

/-- The first CCWs of a program that is as it should be are where they should be. -/
theorem LoadsItself.start {archive : List UInt8} {mem : ℕ → UInt8} {t : Channel} {e : Executed}
    (hloads : LoadsItself g file addr ccwAddr) (hone : 1 ≤ g.cps.length)
    (hreach : Reaches (g.deck file archive) (ipl (g.deck file archive) mem) t)
    (hlog : t.log = [firstExecuted ccwAddr, e]) : e.loc = ccwAddr := by
  obtain ⟨u, hu, hended, hprogram, -⟩ := hloads.runs archive mem
  have hpre := (hreach.to_end hu (by rw [hended]; decide)).log_mono
  obtain ⟨n, hn⟩ := Nat.exists_eq_add_of_le' hone
  have hcps : (List.range g.cps.length).map (cpExecuted ccwAddr)
      = cpExecuted ccwAddr 0 :: (List.range n).map fun i => cpExecuted ccwAddr (i + 1) := by
    rw [hn, List.range_succ_eq_map, List.map_cons, List.map_map]
    rfl
  rw [hlog, hprogram, CcwDeck.program, hcps] at hpre
  simp only [List.cons_append, List.cons_prefix_cons] at hpre
  rw [hpre.2.1]
  rfl

/-- **The place of the CCWs.**  They are on a doubleword boundary, and CP-CCW 1 does not read
them over the transfer to them, unless it puts them where the channel goes on. -/
theorem Generated.place_of_loads (hg : Generated g dataCards addr ccwAddr)
    (htwo : 2 ≤ dataCards) (hsmall : dataCards < 2 ^ 24)
    (hloads : LoadsItself g file addr ccwAddr) :
    ccwAddr % 8 = 0 ∧ (ccwAddr = 16 ∨ 24 ≤ ccwAddr) := by
  obtain ⟨hstart, hone, hcards, -⟩ := hg.cards htwo hsmall
  have haligned : ccwAddr % 8 = 0 := by
    obtain ⟨u, hu, -, hprogram, -⟩ := hloads.runs [] fun _ => 0
    refine hu.aligned (fun e he => absurd he List.not_mem_nil) (cpExecuted ccwAddr 0) ?_
    rw [hprogram, CcwDeck.program]
    refine List.mem_append_left _ (List.mem_append_left _ (List.mem_cons_of_mem _ ?_))
    exact List.mem_map_of_mem (List.mem_range.2 hone)
  refine ⟨haligned, ?_⟩
  by_contra hnot
  obtain ⟨t, hreach, hrun, hnext, hcard, hslot, -, hlog⟩ :=
    hg.first_ccw file [] (fun _ => 0) (by omega)
  -- The channel goes on at 16, which is in the middle of the first slot.
  obtain ⟨q, hq, hq'⟩ : ∃ q, ccwAddr + 8 * q = 16 ∧ (q = 1 ∨ q = 2) :=
    ⟨(16 - ccwAddr) / 8, by omega, by omega⟩
  have hfetch : fetch t.mem t.next = ccwOf (g.ccws.getD q []) := by
    rw [hnext]
    refine hg.fetch_ccw fun k hk => ?_
    rw [← hq, Nat.add_assoc]
    exact hslot _ (by omega)
  have halign : t.next % 8 = 0 := by rw [hnext]
  have hlogged : ∃ card, (exec (g.deck file []) t).log
      = [firstExecuted ccwAddr, ⟨16, fetch t.mem t.next, card⟩] := by
    by_cases hcp : q < g.cps.length
    · rw [hg.cp q hcp] at hfetch
      obtain ⟨card, hread, -⟩ :=
        hg.deck_ccw file [] (j := 1) (by omega)
      have hread' : (g.deck file [])[t.card]? = some card := by rwa [hcard]
      refine ⟨some t.card, ?_⟩
      rw [exec_read hrun halign hfetch hread', chain_log, hlog, hnext, ← hfetch, hnext]
      rfl
    · have hnop := hg.nop (q - g.cps.length) (by
        unfold loaderStart at hstart
        have hcps := hg.cps
        omega)
      rw [Nat.add_sub_cancel' (Nat.not_lt.1 hcp)] at hnop
      rw [hnop] at hfetch
      refine ⟨none, ?_⟩
      rw [exec_nop hrun halign hfetch, chain_log, hlog, hnext, ← hfetch, hnext]
      rfl
  obtain ⟨card, hlogged⟩ := hlogged
  have hloc := hloads.start hone (hreach.trans (Reaches.step rfl)) hlogged
  dsimp only at hloc
  omega

/-- **Exactly when the generated deck loads itself.**  For every file of two cards or more
and all addresses from which no address goes beyond 16 MB, `ccw_gen` prints a deck, and it
loads every file of that size exactly when it fits. -/
theorem ccwGen_loads_iff (psw : Fin 8 → UInt8) {size : ℕ} {addr ccwAddr : CcwAddr}
    (haddr : addr.Digits) (hccw : ccwAddr.Digits) (htwo : 2 ≤ fileCards size)
    (haddrs : addr.val + 80 * fileCards size < 2 ^ 24)
    (hccws : ccwAddr.val + 80 * (cpRounds (fileCards size) + 1) < 2 ^ 24) :
    ∃ g, ccwGen psw size addr ccwAddr = some g ∧
      ((∀ file : List UInt8, file.length = size → LoadsItself g file addr.val ccwAddr.val) ↔
        DeckFits (fileCards size) addr.val ccwAddr.val) := by
  obtain ⟨g, hgen, hg⟩ := ccwGen_spec psw haddr hccw htwo haddrs hccws
  have hsmall : fileCards size < 2 ^ 24 := by omega
  refine ⟨g, hgen, fun hloads => ?_, fun hfits file hfile => ?_⟩
  · have hzeros := hloads (List.replicate size 0) (List.length_replicate ..)
    obtain ⟨haligned, hlow⟩ := hg.place_of_loads htwo hsmall hzeros
    refine ⟨(hg.cards htwo hsmall).2.2.2.1 hzeros.exact, haligned, hlow, ?_⟩
    exact (intact_iff htwo).1 fun j hj =>
      hg.intact_of_loads haligned hlow htwo hsmall rfl hzeros.exact hloads hj
  · exact hfits.loads hg htwo hsmall (by rw [hfile])

/-- A file of two cards, at the addresses that the build uses, loads itself. -/
theorem ccwGen_loads_two : ∃ g, ccwGen (fun _ => 0) 81 ⟨0x10, 0, 0⟩ ⟨0x08, 0, 0⟩ = some g ∧
    ∀ file : List UInt8, file.length = 81 → LoadsItself g file 0x100000 0x80000 := by
  obtain ⟨g, hgen, hiff⟩ := @ccwGen_loads_iff (fun _ => 0) 81 ⟨0x10, 0, 0⟩ ⟨0x08, 0, 0⟩
    ⟨by decide, by decide, by decide⟩ ⟨by decide, by decide, by decide⟩
    (by decide) (by decide) (by decide)
  exact ⟨g, hgen, hiff.2 ⟨by decide, by decide, Or.inr (by decide), Or.inr (by decide)⟩⟩

/-- With 191 data cards there are 21 CP-CCWs for 22 cards: when the channel gets to
LOADER-CCW 1, behind 30 CCWs, the next card is the last of the 23 CCW cards. -/
theorem not_ccwGen_loads : ∃ g, ccwGen (fun _ => 0) 15201 ⟨0x10, 0, 0⟩ ⟨0x08, 0, 0⟩ = some g ∧
    g.cps.length = 21 ∧ g.ccwCards = 23 ∧ ∀ file : List UInt8, file.length = 15201 →
      (∃ t, Reaches (g.deck file []) (ipl (g.deck file []) fun _ => 0) t ∧
        t.status = .running ∧ t.next = 0x80000 + 8 * 30 ∧ t.card = 23) ∧
      ¬ LoadsItself g file 0x100000 0x80000 := by
  obtain ⟨g, hgen, hg⟩ := @ccwGen_spec (fun _ => 0) 15201 ⟨0x10, 0, 0⟩ ⟨0x08, 0, 0⟩
    ⟨by decide, by decide, by decide⟩ ⟨by decide, by decide, by decide⟩
    (by decide) (by decide) (by decide)
  have hcps : g.cps.length = 21 := hg.cps
  have hnops : g.nops.length = 9 := hg.nops
  have hloaders : g.loaders.length = 191 := hg.loaders
  have hcards : g.ccwCards = 23 := by
    simp only [CcwDeck.ccwCards, CcwDeck.ccws, List.length_append]
    omega
  refine ⟨g, hgen, hcps, hcards, fun file _ => ⟨?_, fun hloads => ?_⟩⟩
  · obtain ⟨t, ht, -⟩ := hg.nop_ccws file [] (fun _ => 0)
      (by decide) (Or.inr (by decide)) (by omega) (by omega) le_rfl
    refine ⟨t, ht.reaches, ht.running, ?_, ?_⟩
    · rw [ht.next, hcps, hnops]
      rfl
    · rw [ht.card, hcps]
  · have hexact := hloads.exact
    omega

end Hvf
