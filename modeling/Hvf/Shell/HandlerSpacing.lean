/-
# Blanks around the operands

What the handlers make of a blank in front of their operand and behind it.  The scanners do not
take one in front, and a keyword is not found with one behind it (`OperandScan`).  So the blanks do
not count where the operand is refused anyway (`Indifferent`).
-/

import Hvf.Shell.Handlers

namespace Hvf

open Words

/-- The words of a command. -/
def cmdWords (s : List UInt8) : List (List UInt8) := Words.words [0x20].contains s

/-- The separators are the blank alone. -/
theorem mem_blank {c : UInt8} : [(0x20 : UInt8)].contains c = true ↔ c = 0x20 := by
  rw [List.contains_iff_mem, List.mem_singleton]

/-- The blank is white space. -/
theorem isWs_blank : isWs 0x20 = true := by decide

/-- The number that a word begins with. -/
def hexAt (w : List UInt8) : Option UInt64 := (extractHexPtr (some w)).toOption.map Prod.snd

/-- The decimal number that a word begins with. -/
def decAt (w : List UInt8) : Option UInt64 := (extractDecPtr (some w)).toOption.map Prod.snd

/-- A word is one of the keywords. -/
def Matches {α : Type} (keywords : List (List UInt8 × α)) (w : List UInt8) : Prop :=
  ∃ k ∈ keywords, strcasecmp w k.1 = 0

/-- The operand is a keyword. -/
def IsKeyword {α : Type} (keywords : List (List UInt8 × α)) (ops : List (List UInt8)) : Prop :=
  ∃ w, ops = [w] ∧ Matches keywords w

/-- The operand is no number, or a bad one. -/
def NoHex (bad : UInt64 → Bool) (ops : List (List UInt8)) : Prop :=
  ∀ w ∈ ops.head?, ∀ val ∈ hexAt w, bad val = true

/-- The operand is no address. -/
def NoAddr (wanted : Bool) (w : List UInt8) : Prop :=
  parseAddrspec wanted w = .error (-einval)

/-- The operands are the number of a register and a number. -/
def RegOperand (bad : UInt64 → Bool) (ops : List (List UInt8)) : Prop :=
  (∃ w ∈ ops.head?, ∃ reg ∈ decAt w, reg ≤ 15) ∧
    ∃ u ∈ (ops.flatMap (Words.words isWs))[1]?, ∃ val ∈ hexAt u, bad val = false

/-- A handler that does not depend on the blanks between its operands. -/
def Indifferent (ops : List (List UInt8)) : CmdFn → Prop
  | .cmdEnable => ops ≠ [] ∧ ¬ IsKeyword enableOperands ops ∧ NoHex notDevnum ops
  | .cmdIpl => 8 < (spaced 0x20 ops).length
  | .cmdSystem => False
  | .cmdDisplayPsw => ops ≠ [] ∧ ¬ IsKeyword pswOperands ops
  | .cmdDisplaySchib => ops ≠ [] ∧ ¬ IsKeyword schibOperands ops ∧ NoHex notSch ops
  | .cmdDisplayStorage => ∃ w ∈ ops.head?, NoAddr true (displayFmt w).2
  | .cmdQueryReal => ops ≠ [] ∧ ¬ IsKeyword realOperands ops ∧ NoHex notDevnum ops
  | .cmdStoreAr => ¬ RegOperand notWord ops
  | .cmdStoreCr | .cmdStoreFpr | .cmdStoreGpr => ¬ RegOperand (fun _ => false) ops
  | .cmdStoreFpcr => NoHex notWord ops
  | .cmdStorePsw => NoHex (fun _ => false) ops
  | .cmdStoreStorage => ∃ w ∈ ops.head?, NoAddr false w
  | _ => True

/-! ### Scanning -/

/-- `text` gives `r` for an operand with a blank in front; and for another one exactly if it is not
a keyword and is refused. -/
structure OperandScan (text : List UInt8 → CmdResult) (r : CmdResult) (keyword : List UInt8 → Prop)
    (refuses : List (List UInt8) → Prop) : Prop where
  lead : ∀ s, 0 ∉ s → text (0x20 :: s) = r
  word : ∀ w l, w ≠ [] → (∀ c ∈ w, [0x20].contains c = false) → (∀ c ∈ l.head?, c = 0x20) →
    0 ∉ w ++ l → (text (w ++ l) = r ↔ (l = [] → ¬ keyword w) ∧ refuses (w :: cmdWords l))

section OperandScan

variable {text : List UInt8 → CmdResult} {r : CmdResult} {keyword : List UInt8 → Prop}
  {refuses : List (List UInt8) → Prop} {w s : List UInt8} {ws : List (List UInt8)}

/-- Spaced words have no NUL if the text has none. -/
theorem zero_notMem_spaced (hs : cmdWords s = ws) (hnul : 0 ∉ s) : 0 ∉ spaced 0x20 ws := by
  subst hs
  intro hmem
  have hsame := words_spaced (p := [(0x20 : UInt8)].contains) (mem_blank.2 rfl) s
  have hflat := congrArg List.flatten hsame
  rw [flatten_words, flatten_words] at hflat
  have hin : (0 : UInt8) ∈ s.filter fun c => !([(0x20 : UInt8)].contains c) := by
    rw [← hflat]
    exact List.mem_filter.2 ⟨hmem, by decide⟩
  exact hnul (List.mem_of_mem_filter hin)

/-- Where the operand is refused, the blanks do not count. -/
theorem OperandScan.uniform (h : OperandScan text r keyword refuses) (hs : cmdWords s = w :: ws)
    (hnul : 0 ∉ s) (hkey : ws = [] → ¬ keyword w) (href : refuses (w :: ws)) : text s = r := by
  obtain ⟨c, l, hc, rfl⟩ | ⟨l, rfl, hl, hws⟩ := eq_append_of_words hs
  · rw [mem_blank.1 hc]
    exact h.lead l fun hmem => hnul (List.mem_cons_of_mem c hmem)
  · obtain ⟨hne, hw, -⟩ := exists_words_eq hs
    refine (h.word w l hne hw (fun c hc => mem_blank.1 (hl c hc)) hnul).2 ⟨?_, ?_⟩
    · rintro rfl
      exact hkey hws.symm
    · rwa [cmdWords, hws]

/-- Where it is not, a blank in front changes the result. -/
theorem OperandScan.differs (h : OperandScan text r keyword refuses) (hs : cmdWords s = w :: ws)
    (hnul : 0 ∉ s) (hnot : ¬ ((ws = [] → ¬ keyword w) ∧ refuses (w :: ws))) :
    text (0x20 :: spaced 0x20 (w :: ws)) ≠ text (spaced 0x20 (w :: ws)) := by
  have hclean := zero_notMem_spaced hs hnul
  have hblank : [(0x20 : UInt8)].contains 0x20 = true := mem_blank.2 rfl
  have hwords : cmdWords (spaced 0x20 (w :: ws)) = w :: ws := by
    rw [← hs]
    exact words_spaced hblank s
  obtain ⟨l, hl, hnil, hhead⟩ := exists_spaced_cons hblank w ws
  obtain ⟨hne, hw, -⟩ := exists_words_eq hs
  have hws : cmdWords l = ws := by
    rw [hl, cmdWords, words_append hne hw hhead] at hwords
    exact (List.cons.inj hwords).2
  rw [h.lead _ hclean]
  intro heq
  rw [hl] at hclean heq
  have hword := (h.word w l hne hw (fun c hc => mem_blank.1 (hhead c hc)) hclean).1 heq.symm
  rw [hws] at hword
  exact hnot ⟨fun hnone => hword.1 (hnil.2 hnone), hword.2⟩

end OperandScan

/-! ### The handlers -/

section

variable {keywords : List (List UInt8 × CmdResult)} {bad : UInt64 → Bool}
  {number : UInt64 → CmdResult} {w l s : List UInt8}

/-- Keywords without blanks and NULs. -/
def Keywords {α : Type} (keywords : List (List UInt8 × α)) : Prop :=
  ∀ k ∈ keywords, 0 ∉ k.1 ∧ 0x20 ∉ k.1.map tolower

/-- Whether keywords are words is decided one by one. -/
instance {α : Type} (keywords : List (List UInt8 × α)) : Decidable (Keywords keywords) :=
  inferInstanceAs (Decidable (∀ k ∈ keywords, _))

/-- What has a blank is no keyword. -/
theorem find?_keyword {α : Type} {keywords : List (List UInt8 × α)} (hk : Keywords keywords)
    (hnul : 0 ∉ s) (hs : 0x20 ∈ s) :
    (keywords.find? fun k => strcasecmp s k.1 = 0) = none := by
  rw [List.find?_eq_none]
  intro k hmem
  obtain ⟨hzero, hblank⟩ := hk k hmem
  rw [decide_eq_true_eq, strcasecmp_eq_zero_iff hnul hzero]
  intro h
  have hin := List.mem_map_of_mem (f := tolower) hs
  rw [h] at hin
  exact hblank hin

/-- A word has a hexadecimal number exactly when the scan gives one. -/
theorem mem_hexAt {val : UInt64} :
    val ∈ hexAt w ↔ ∃ rest, extractHexPtr (some w) = .ok (rest, val) := by
  rw [hexAt]
  cases extractHexPtr (some w) with
  | error e => simp [Except.toOption]
  | ok r => simp [Except.toOption, Prod.ext_iff]

/-- The number at the front is refused. -/
theorem bind_hex_eq_iff (number : UInt64 → CmdResult)
    (hnumber : ∀ val, number val ≠ .ret (-einval) [])
    (hl : ∀ c ∈ l.head?, isWs c = true) :
    (CmdResult.bind (extractHexPtr (some (w ++ l))) fun r =>
        if bad r.2 then .ret (-einval) [] else number r.2) = .ret (-einval) [] ↔
      ∀ val ∈ hexAt w, bad val = true := by
  simp only [mem_hexAt]
  rw [extractHexPtr_append w hl]
  cases hr : extractHexPtr (some w) with
  | error e =>
    rw [extractHexPtr_eq_error hr]
    exact iff_of_true rfl nofun
  | ok r =>
    simp only [Except.map, CmdResult.bind, Except.ok.injEq, Prod.ext_iff]
    by_cases hbad : bad r.2 = true
    · rw [if_pos hbad]
      refine iff_of_true rfl ?_
      rintro val ⟨rest, -, rfl⟩
      exact hbad
    · rw [if_neg hbad]
      exact iff_of_false (hnumber _) fun h => hbad (h r.2 ⟨r.1, rfl, rfl⟩)

/-- A blank stops every scanner. -/
theorem isWs_of_blank (hl : ∀ c ∈ l.head?, c = 0x20) : ∀ c ∈ l.head?, isWs c = true := by
  intro c hc
  rw [hl c hc]
  exact isWs_blank

/-- What comes behind a word begins with a blank. -/
theorem blank_mem (hl : ∀ c ∈ l.head?, c = 0x20) (hne : l ≠ []) : 0x20 ∈ w ++ l := by
  obtain ⟨c, l, rfl⟩ := List.ne_nil_iff_exists_cons.1 hne
  rw [hl c rfl]
  exact List.mem_append_right _ (List.mem_cons_self ..)

/-- A keyword is found only if it stands alone. -/
theorem find?_keyword_cases {α : Type} {keywords : List (List UInt8 × α)} (hk : Keywords keywords)
    (hl : ∀ c ∈ l.head?, c = 0x20) (hnul : 0 ∉ w ++ l) :
    ((keywords.find? fun k => strcasecmp (w ++ l) k.1 = 0) = none ∧
        (l = [] → ¬ Matches keywords w)) ∨
      ∃ k ∈ keywords, (keywords.find? fun k => strcasecmp (w ++ l) k.1 = 0) = some k ∧ l = [] ∧
        Matches keywords w := by
  by_cases hnil : l = []
  · subst hnil
    rw [List.append_nil]
    cases hfind : keywords.find? fun k => strcasecmp w k.1 = 0 with
    | none =>
      refine Or.inl ⟨rfl, fun _ => ?_⟩
      rintro ⟨k, hmem, hzero⟩
      exact List.find?_eq_none.1 hfind k hmem (decide_eq_true hzero)
    | some k =>
      have hmem := List.mem_of_find?_eq_some hfind
      have hzero := List.find?_some hfind
      exact Or.inr ⟨k, hmem, rfl, rfl, k, hmem, by simpa using hzero⟩
  · exact Or.inl ⟨find?_keyword hk hnul (blank_mem hl hnil), fun h => absurd h hnil⟩

/-- **An operand that is a keyword or a number** is scanned without regard to its spacing, but
for a keyword with something behind it. -/
theorem scans_keywordOrHex (hk : Keywords keywords)
    (hkey : ∀ k ∈ keywords, k.2 ≠ .ret (-einval) [])
    (hnumber : ∀ val, number val ≠ .ret (-einval) []) :
    OperandScan (keywordOrHex keywords bad number) (.ret (-einval) []) (Matches keywords)
      (NoHex bad) where
  lead s hnul := by
    rw [keywordOrHex, find?_keyword hk (by simpa using hnul) (List.mem_cons_self ..),
      extractHexPtr, extract_of_isWs (fun _ => hexValue_of_isWs) isWs_blank]
    rfl
  word w l hne hw hl hnul := by
    have hhex : NoHex bad (w :: cmdWords l) ↔ ∀ val ∈ hexAt w, bad val = true := by
      simp [NoHex]
    rw [keywordOrHex, hhex]
    obtain ⟨hfind, hnot⟩ | ⟨k, hmem, hfind, hnil, hmatch⟩ := find?_keyword_cases hk hl hnul
    · rw [hfind]
      dsimp only
      rw [bind_hex_eq_iff number hnumber (isWs_of_blank hl)]
      exact (and_iff_right hnot).symm
    · rw [hfind]
      exact iff_of_false (hkey k hmem) fun h => h.1 hnil hmatch

/-- `ENABLE` scans its operand so. -/
theorem scans_enable :
    OperandScan enableText (.ret (-einval) []) (Matches enableOperands) (NoHex notDevnum) :=
  scans_keywordOrHex (by decide) (by decide) fun _ => nofun

/-- `DISPLAY SCHIB` scans its operand so. -/
theorem scans_displaySchib :
    OperandScan displaySchibText (.ret (-einval) []) (Matches schibOperands) (NoHex notSch) :=
  scans_keywordOrHex (by decide) (by decide) fun _ => nofun

/-- `DISPLAY PSW` looks at a keyword and nothing else. -/
theorem scans_displayPsw :
    OperandScan displayPswText (.act (.displayPsw 0x01)) (Matches pswOperands)
      fun _ => True where
  lead s hnul := by
    rw [displayPswText, find?_keyword (by decide) (by simpa using hnul) (List.mem_cons_self ..)]
  word w l hne hw hl hnul := by
    have hother : ∀ k ∈ pswOperands, CmdResult.act (.displayPsw k.2) ≠ .act (.displayPsw 0x01) := by
      decide
    have hk : Keywords pswOperands := by decide
    rw [displayPswText, and_true]
    obtain ⟨hfind, hnot⟩ | ⟨k, hmem, hfind, hnil, hmatch⟩ := find?_keyword_cases hk hl hnul
    · rw [hfind]
      exact iff_of_true rfl hnot
    · rw [hfind]
      exact iff_of_false (hother k hmem) fun h => h hnil hmatch

/-- The format letter of a word is that of the word with anything behind it. -/
theorem displayFmt_append (hne : w ≠ []) (l : List UInt8) :
    displayFmt (w ++ l) = ((displayFmt w).1, (displayFmt w).2 ++ l) := by
  obtain ⟨c, w, rfl⟩ := List.ne_nil_iff_exists_cons.1 hne
  rw [List.cons_append, displayFmt, displayFmt]
  split_ifs <;> rfl

/-- An address that is none gives `-EINVAL`. -/
theorem parseAddrspec_eq_error {wanted : Bool} {e : Int} (h : parseAddrspec wanted s = .error e) :
    e = -einval := by
  rw [parseAddrspec_eq] at h
  cases hscan : scanAddr s with
  | none =>
    rw [hscan] at h
    exact (Except.error.inj h).symm
  | some r =>
    rw [hscan] at h
    dsimp only at h
    split at h
    · split at h
      · exact (Except.error.inj h).symm
      · split_ifs at h
        exact (Except.error.inj h).symm
    · split_ifs at h
      exact (Except.error.inj h).symm

/-- `DISPLAY STORAGE` scans its address without regard to spacing. -/
theorem scans_displayStorage :
    OperandScan displayStorageText (.ret 0 (ascii "DISPLAY: Invalid addr-spec")) (fun _ => False)
      fun ops => ∃ w ∈ ops.head?, NoAddr true (displayFmt w).2 where
  lead s hnul := by
    have hfmt : displayFmt (0x20 :: s) = (false, 0x20 :: s) := by
      rw [displayFmt, if_neg (by decide), if_neg (by decide)]
    rw [displayStorageText, hfmt, parseAddrspec_of_isWs true isWs_blank]
  word w l hne hw hl hnul := by
    rw [displayStorageText, displayFmt_append hne, and_iff_right fun _ => id,
      parseAddrspec_append true _ (isWs_of_blank hl)]
    simp only [List.head?_cons, Option.mem_some_iff, exists_eq_left', NoAddr]
    cases hr : parseAddrspec true (displayFmt w).2 with
    | error e =>
      rw [parseAddrspec_eq_error hr]
      exact iff_of_true rfl rfl
    | ok r => exact iff_of_false nofun nofun

/-- So does `STORE STORAGE`. -/
theorem scans_storeStorage :
    OperandScan storeStorageText (.ret (-einval) (ascii "STORE: Invalid addr-spec"))
      (fun _ => False) fun ops => ∃ w ∈ ops.head?, NoAddr false w where
  lead s hnul := by rw [storeStorageText, parseAddrspec_of_isWs false isWs_blank]
  word w l hne hw hl hnul := by
    rw [storeStorageText, and_iff_right fun _ => id,
      parseAddrspec_append false _ (isWs_of_blank hl)]
    simp only [List.head?_cons, Option.mem_some_iff, exists_eq_left', NoAddr]
    cases hr : parseAddrspec false w with
    | error e =>
      rw [parseAddrspec_eq_error hr]
      exact iff_of_true rfl rfl
    | ok r =>
      -- what is wrong behind the address has no message
      refine iff_of_false (fun h => ?_) nofun
      dsimp only [Except.map] at h
      unfold CmdResult.bind at h
      split at h
      · injection h with _ h
        exact absurd h (by decide)
      · exact nomatch h

/-- So does `STORE FPCR` its number. -/
theorem scans_storeFpcr :
    OperandScan (fun s => storeFpcr (some s)) (.ret (-einval) []) (fun _ => False)
      (NoHex notWord) where
  lead s hnul := by
    rw [storeFpcr, extractHexPtr, extract_of_isWs (fun _ => hexValue_of_isWs) isWs_blank]
    rfl
  word w l hne hw hl hnul := by
    have hhex : NoHex notWord (w :: cmdWords l) ↔ ∀ val ∈ hexAt w, notWord val = true := by
      simp [NoHex]
    rw [and_iff_right fun _ => id, hhex]
    exact bind_hex_eq_iff (fun val => .act (.storeFpcr val)) nofun (isWs_of_blank hl)

/-- The number behind the blanks is refused, or there is none. -/
theorem bind_hex_consumeWs_iff (number : UInt64 → CmdResult)
    (hnumber : ∀ val, number val ≠ .ret (-einval) []) (t : List UInt8) :
    (CmdResult.bind (extractHexPtr (consumeWs (some t))) fun r =>
        if bad r.2 then .ret (-einval) [] else number r.2) = .ret (-einval) [] ↔
      ∀ u ∈ (Words.words isWs t).head?, ∀ val ∈ hexAt u, bad val = true := by
  rw [consumeWs, Option.map_some]
  obtain hall | ⟨u, l, hne, hu, hl, heq⟩ := exists_word isWs t
  · rw [← words_dropWhile, List.dropWhile_eq_nil_iff.2 hall]
    exact iff_of_true rfl nofun
  · rw [← words_dropWhile, heq, bind_hex_eq_iff number hnumber hl, words_append hne hu hl]
    simp

/-- A word has a decimal number exactly when the scan gives one. -/
theorem mem_decAt {val : UInt64} :
    val ∈ decAt w ↔ ∃ rest, extractDecPtr (some w) = .ok (rest, val) := by
  rw [decAt]
  cases extractDecPtr (some w) with
  | error e => simp [Except.toOption]
  | ok r => simp [Except.toOption, Prod.ext_iff]

/-- The words behind the number of a register. -/
theorem words_of_extractDecPtr {rest : List UInt8} {val : UInt64}
    (h : extractDecPtr (some w) = .ok (rest, val)) (hl : ∀ c ∈ l.head?, isWs c = true) :
    ∃ run, Words.words isWs (w ++ l) = run :: Words.words isWs (rest ++ l) := by
  obtain ⟨n, ⟨⟨run, rfl, hne, hrun, -⟩, hrest⟩, -⟩ := extractDecPtr_eq_ok_iff.1 h
  refine ⟨run, ?_⟩
  rw [List.append_assoc]
  refine words_append hne (fun c hc => ?_) fun c hc => ?_
  · by_contra hws
    have hval := digitVal_of_isWs (by simpa using hws)
    have hlt := hrun c hc
    omega
  · cases rest with
    | nil => exact hl c hc
    | cons d rest => exact hrest c hc

/-- The register stores scan register and value so. -/
theorem scans_storeRegister (bad : UInt64 → Bool) :
    OperandScan (fun s => storeRegister bad (some s)) (.ret (-einval) []) (fun _ => False)
      fun ops => ¬ RegOperand bad ops where
  lead s hnul := by
    rw [storeRegister, extractDecPtr, extract_of_isWs (fun _ => decValue_of_isWs) isWs_blank]
    rfl
  word w l hne hw hl hnul := by
    have hws := isWs_of_blank hl
    have hops : (w :: cmdWords l).flatMap (Words.words isWs) = Words.words isWs (w ++ l) := by
      have hcons : cmdWords (w ++ l) = w :: cmdWords l :=
        words_append hne hw fun c hc => mem_blank.2 (hl c hc)
      rw [← hcons]
      refine (words_flatMap (fun c hc => ?_) _).symm
      rw [mem_blank.1 hc]
      exact isWs_blank
    rw [and_iff_right fun _ => id, RegOperand, hops, storeRegister, extractDecPtr_append w hws]
    simp only [List.head?_cons, Option.mem_some_iff, exists_eq_left', mem_decAt]
    cases hr : extractDecPtr (some w) with
    | error e =>
      rw [extract_eq_error hr]
      refine iff_of_true rfl ?_
      rintro ⟨⟨reg, ⟨rest, h⟩, -⟩, -⟩
      exact nomatch h
    | ok r =>
      obtain ⟨rest, reg⟩ := r
      obtain ⟨run, hrun⟩ := words_of_extractDecPtr hr hws
      simp only [Except.map, CmdResult.bind.eq_2, hrun, List.getElem?_cons_succ, Except.ok.injEq,
        Prod.mk.injEq]
      by_cases hreg : reg > 15
      · rw [if_pos hreg]
        refine iff_of_true rfl ?_
        rintro ⟨⟨_, ⟨_, -, rfl⟩, hle⟩, -⟩
        exact UInt64.not_lt.2 hle hreg
      · rw [if_neg hreg]
        refine (bind_hex_consumeWs_iff (fun val => .act (.storeReg reg val)) nofun
          (rest ++ l)).trans ?_
        rw [← List.head?_eq_getElem?]
        constructor
        · rintro h ⟨-, u, hu, val, hval, hgood⟩
          exact Bool.false_ne_true (hgood.symm.trans (h u hu val hval))
        · intro h u hu val hval
          by_contra hgood
          exact h ⟨⟨reg, ⟨rest, rfl, rfl⟩, UInt64.not_lt.1 hreg⟩, u, hu, val, hval,
            Bool.eq_false_iff.2 hgood⟩

/-- `STORE PSW` refuses an operand without a hexadecimal word in front. -/
theorem cmdStorePsw_eq_refused_iff {auth : BitVec 8} (hauth : auth &&& authG ≠ 0) (zarch : Bool)
    (psw : Psw) (cmd : Option (List UInt8)) :
    Hvf.cmdStorePsw auth zarch psw cmd = ⟨-einval, [], psw⟩ ↔
      ∃ e, extractHexPtr cmd = .error e := by
  have hwords : (pswWords 4 cmd).length = 0 ↔ ∃ e, extractHexPtr cmd = .error e := by
    rw [pswWords]
    cases extractHexPtr cmd with
    | error e => exact iff_of_true rfl ⟨e, rfl⟩
    | ok r =>
      refine iff_of_false (Nat.succ_ne_zero _) ?_
      rintro ⟨e, he⟩
      cases he
  rw [← hwords]
  constructor
  · intro h
    by_contra hpos
    by_cases hesa : zarch = false ∧ 2 < (pswWords 4 cmd).length
    · have hlines := congrArg PswReply.lines h
      rw [Hvf.cmdStorePsw, if_neg hauth] at hlines
      dsimp only at hlines
      rw [if_neg hpos, if_pos hesa] at hlines
      cases hlines
    · have hret := (cmdStorePsw_stores psw hauth (by omega) (length_pswWords_le hesa)).1
      rw [h] at hret
      exact absurd hret (show (-einval : Int) ≠ 0 by decide)
  · intro hzero
    rw [Hvf.cmdStorePsw, if_neg hauth]
    dsimp only
    rw [if_pos hzero]

/-- `STORE PSW` scans its words so. -/
theorem scans_storePsw {env : ShellEnv} (hauth : env.auth &&& authG ≠ 0) :
    OperandScan (fun s => .act (.storePsw (Hvf.cmdStorePsw env.auth env.zarch env.psw (some s))))
      (.act (.storePsw ⟨-einval, [], env.psw⟩)) (fun _ => False) (NoHex fun _ => false) where
  lead s hnul := by
    rw [(cmdStorePsw_eq_refused_iff hauth env.zarch env.psw (some (0x20 :: s))).2
      ⟨_, extract_of_isWs (fun _ => hexValue_of_isWs) isWs_blank s⟩]
  word w l hne hw hl hnul := by
    have hhex : NoHex (fun _ => false) (w :: cmdWords l) ↔
        ∃ e, extractHexPtr (some w) = .error e := by
      simp only [NoHex, List.head?_cons, Option.mem_some_iff, forall_eq', mem_hexAt,
        Bool.false_eq_true]
      cases extractHexPtr (some w) with
      | error e => exact iff_of_true nofun ⟨e, rfl⟩
      | ok r => exact iff_of_false (fun h => h r.2 ⟨r.1, rfl⟩) nofun
    rw [and_iff_right fun _ => id, hhex, CmdResult.act.injEq, CmdAct.storePsw.injEq,
      cmdStorePsw_eq_refused_iff hauth, extractHexPtr_append w (isWs_of_blank hl)]
    cases extractHexPtr (some w) with
    | error e => exact iff_of_true ⟨e, rfl⟩ ⟨e, rfl⟩
    | ok r => exact iff_of_false nofun nofun

/-- The operand of `QUERY REAL` is one of a keyword or a number. -/
theorem scans_realOperands :
    OperandScan (keywordOrHex realOperands notDevnum fun _ => .act (.queryReal 8))
      (.ret (-einval) []) (Matches realOperands) (NoHex notDevnum) :=
  scans_keywordOrHex (by decide) (by decide) fun _ => nofun

/-- `QUERY REAL` scans it so. -/
theorem scans_queryReal : OperandScan (fun s => queryRealText s s.length) (.ret (-einval) [])
    (Matches realOperands) (NoHex notDevnum) where
  lead s hnul := by
    rw [queryRealText, if_neg (by simp; omega)]
    exact scans_realOperands.lead s hnul
  word w l hne hw hl hnul := by
    have hsome : ¬ (((w ++ l).length : Int) = 0 ∨ w ++ l = []) := by
      have hpos := List.length_pos_iff.2 hne
      simp only [List.length_append, List.append_eq_nil_iff, not_or]
      exact ⟨by omega, fun h => hne h.1⟩
    rw [queryRealText, if_neg hsome]
    exact scans_realOperands.word w l hne hw hl hnul

end

/-! ### Handlers that do not depend on the blanks -/

section

variable {env : ShellEnv} {f : CmdFn} {text : List UInt8 → CmdResult}
  {g : Option (List UInt8) → CmdResult} {r : CmdResult} {keyword : List UInt8 → Prop}
  {refuses : List (List UInt8) → Prop} {cmd : Option (List UInt8)} {len : Int} {s : List UInt8}
  {ops : List (List UInt8)}

/-- **What a handler is called with for the operands `ops`**: a text with these words and no
NUL, or nothing, and with the length of what there is. -/
structure OperandArgs (ops : List (List UInt8)) (cmd : Option (List UInt8)) (len : Int) : Prop where
  words : cmdWords (cmd.getD []) = ops
  nul : 0 ∉ cmd.getD []
  len : ∀ s, cmd = some s → len = s.length

/-- An operand that may be missing is scanned so, if without it the handler refuses. -/
theorem OperandScan.option (h : OperandScan (fun s => g (some s)) r keyword refuses)
    (hcmd : OperandArgs ops cmd len) (hempty : ops = [] → g none = r ∧ g (some []) = r)
    (hkey : ∀ w, ops = [w] → ¬ keyword w) (href : ops ≠ [] → refuses ops) : g cmd = r := by
  obtain ⟨hwords, hnul, -⟩ := hcmd
  cases cmd with
  | none => exact (hempty hwords.symm).1
  | some s =>
    rw [Option.getD_some] at hwords hnul
    cases ops with
    | nil =>
      cases s with
      | nil => exact (hempty rfl).2
      | cons c s =>
        obtain rfl := mem_blank.1 (forall_of_words_nil hwords c (List.mem_cons_self ..))
        exact h.lead s fun hmem => hnul (List.mem_cons_of_mem _ hmem)
    | cons w ws =>
      exact h.uniform hwords hnul (fun hnil => hkey w (by rw [hnil])) (href (List.cons_ne_nil _ _))

/-- The handlers whose operand is looked at through the pointer. -/
theorem OperandScan.derefs (h : OperandScan text r keyword refuses) (hcmd : OperandArgs ops cmd len)
    (hne : ops ≠ []) (hkey : ∀ w, ops = [w] → ¬ keyword w) (href : refuses ops) :
    derefs text cmd = r :=
  OperandScan.option (g := Hvf.derefs text) h hcmd (fun hnil => absurd hnil hne) hkey fun _ => href

/-- A single word that is no keyword does not match one. -/
theorem not_isKeyword {α : Type} {keywords : List (List UInt8 × α)}
    (h : ¬ IsKeyword keywords ops) (w : List UInt8) (hw : ops = [w]) : ¬ Matches keywords w :=
  fun hmatch => h ⟨w, hw, hmatch⟩

/-- Operands whose first word is something are not empty. -/
theorem ne_nil_of_head? {p : List UInt8 → Prop} (h : ∃ w ∈ ops.head?, p w) : ops ≠ [] := by
  rintro rfl
  obtain ⟨w, hw, -⟩ := h
  cases hw

/-- What a handler gives for operands that are refused. -/
def CmdFn.refusal (env : ShellEnv) : CmdFn → CmdResult
  | .cmdIpl => .act (.ipl none)
  | .cmdDisplayPsw => .act (.displayPsw 0x01)
  | .cmdDisplayStorage => .ret 0 (ascii "DISPLAY: Invalid addr-spec")
  | .cmdStoreStorage => .ret (-einval) (ascii "STORE: Invalid addr-spec")
  | .cmdStorePsw => .act (.storePsw ⟨-einval, [], env.psw⟩)
  | .cmdEnable | .cmdDisplaySchib | .cmdQueryReal | .cmdStoreAr | .cmdStoreCr | .cmdStoreFpcr
  | .cmdStoreFpr | .cmdStoreGpr => .ret (-einval) []
  | _ => .act .plain

/-- What a handler refuses with is no fault. -/
theorem refusal_ne_fault (env : ShellEnv) (f : CmdFn) : f.refusal env ≠ .fault := by
  cases f <;> nofun

/-- A user who may use `STORE PSW` has the class for it. -/
theorem authG_of_denies (h : env.denies .cmdStorePsw = false) : env.auth &&& authG ≠ 0 := by
  intro hzero
  have hdenies : env.denies .cmdStorePsw = (env.auth &&& authG == 0) := rfl
  rw [hdenies, hzero] at h
  exact absurd h (by decide)

/-- **Where the blanks do not count**, the handler has one result for the operands. -/
theorem body_of_indifferent (hauth : env.denies f = false) (h : Indifferent ops f)
    (hcmd : OperandArgs ops cmd len) : f.body env cmd len = f.refusal env := by
  cases f with
  | cmdEnable => exact scans_enable.derefs hcmd h.1 (not_isKeyword h.2.1) h.2.2
  | cmdDisplaySchib => exact scans_displaySchib.derefs hcmd h.1 (not_isKeyword h.2.1) h.2.2
  | cmdDisplayPsw => exact scans_displayPsw.derefs hcmd h.1 (not_isKeyword h.2) trivial
  | cmdDisplayStorage =>
    exact scans_displayStorage.derefs hcmd (ne_nil_of_head? h) (fun _ _ => id) h
  | cmdStoreStorage =>
    exact scans_storeStorage.derefs hcmd (ne_nil_of_head? h) (fun _ _ => id) h
  | cmdStoreAr | cmdStoreCr | cmdStoreFpr | cmdStoreGpr =>
    exact (scans_storeRegister _).option hcmd (fun _ => ⟨rfl, rfl⟩) (fun _ _ => id) fun _ => h
  | cmdStoreFpcr =>
    exact scans_storeFpcr.option hcmd (fun _ => ⟨rfl, rfl⟩) (fun _ _ => id) fun _ => h
  | cmdStorePsw =>
    have hclass := authG_of_denies hauth
    refine (scans_storePsw hclass).option (g := fun cmd =>
      .act (.storePsw (Hvf.cmdStorePsw env.auth env.zarch env.psw cmd))) hcmd (fun _ => ?_)
      (fun _ _ => id) fun _ => h
    rw [(cmdStorePsw_eq_refused_iff hclass _ _ _).2 ⟨_, rfl⟩,
      (cmdStorePsw_eq_refused_iff hclass _ _ _).2 ⟨_, rfl⟩]
    exact ⟨rfl, rfl⟩
  | cmdQueryReal =>
    obtain ⟨hwords, -, hlen⟩ := id hcmd
    cases cmd with
    | none => exact absurd hwords.symm h.1
    | some s =>
      rw [hlen s rfl]
      exact scans_queryReal.derefs hcmd h.1 (not_isKeyword h.2.1) h.2.2
  | cmdIpl =>
    obtain ⟨hwords, -, -⟩ := hcmd
    cases cmd with
    | none =>
      subst hwords
      exact absurd h (show ¬ 8 < 0 by decide)
    | some s =>
      have hlong := length_spaced_le [(0x20 : UInt8)].contains 0x20 s
      have hspaced : 8 < (spaced 0x20 (cmdWords s)).length := hwords ▸ h
      show iplText s = _
      rw [iplText, if_pos (lt_min (hspaced.trans_le hlong) (by decide))]
      rfl
  | cmdSystem => exact absurd h id
  | _ => rfl

/-! ### Handlers that do -/

/-- The operands with a blank in front, and without one. -/
theorem OperandScan.option_differs (h : OperandScan (fun s => g (some s)) r keyword refuses)
    (hs : cmdWords s = ops) (hnul : 0 ∉ s) (hne : ops ≠ [])
    (hnot : ¬ ((∀ w, ops = [w] → ¬ keyword w) ∧ refuses ops)) :
    g (some (0x20 :: spaced 0x20 ops)) ≠ g (some (spaced 0x20 ops)) := by
  obtain ⟨w, ws, rfl⟩ := List.ne_nil_iff_exists_cons.1 hne
  refine h.differs hs hnul fun hcond => hnot ⟨fun v hv => ?_, hcond.2⟩
  obtain ⟨rfl, hnil⟩ := List.cons.inj hv
  exact hcond.1 hnil

/-- Spaced words begin with a character of the first one. -/
theorem exists_spaced_eq_cons (hs : cmdWords s = ops) (hne : ops ≠ []) :
    ∃ c l, c ≠ 0x20 ∧ spaced 0x20 ops = c :: l := by
  obtain ⟨w, ws, rfl⟩ := List.ne_nil_iff_exists_cons.1 hne
  obtain ⟨hw, hblank, -⟩ := exists_words_eq hs
  obtain ⟨c, w, rfl⟩ := List.ne_nil_iff_exists_cons.1 hw
  obtain ⟨l, hl, -⟩ := exists_spaced_cons (p := [(0x20 : UInt8)].contains) (mem_blank.2 rfl)
    (c :: w) ws
  refine ⟨c, w ++ l, fun hc => ?_, hl⟩
  have hfalse := hblank c (List.mem_cons_self ..)
  rw [hc] at hfalse
  exact absurd hfalse (by decide)

/-- `IPL` takes a blank before its operand for a part of it. -/
theorem iplText_differs {c : UInt8} {l : List UInt8} (hc : c ≠ 0x20)
    (hlen : ¬ 8 < (c :: l).length) : iplText (0x20 :: c :: l) ≠ iplText (c :: l) := by
  intro h
  rw [iplText, iplText, if_neg (show ¬ 8 < min (c :: l).length 9 by omega)] at h
  split_ifs at h
  · cases h
  · injection h with h
    injection h with h
    injection h with h
    exact hc (List.cons.inj h).1.symm

/-- The line on the console. -/
def CmdResult.line : CmdResult → List UInt8
  | .ret _ line => line
  | _ => []

/-- So does `SYSTEM`. -/
theorem systemText_differs (hnul : 0 ∉ s) {c : UInt8} {l : List UInt8} (hc : c ≠ 0x20)
    (hs : s = c :: l) : systemText (0x20 :: s) ≠ systemText s := by
  intro h
  have hlines : ∀ k ∈ systemOperands, k.2.line.take 7 ≠ ascii "SYSTEM:" := by decide +kernel
  have hunknown (x : List UInt8) :
      (ascii "SYSTEM: Unknown variable '" ++ x ++ ascii "'").take 7 = ascii "SYSTEM:" := rfl
  rw [systemText, find?_keyword (by decide) (by simpa using hnul) (List.mem_cons_self ..),
    systemText] at h
  have hline := congrArg CmdResult.line h
  cases hfind : systemOperands.find? fun k => strcasecmp s k.1 = 0 with
  | some k =>
    rw [hfind] at hline
    have htake := congrArg (List.take 7) hline
    exact hlines k (List.mem_of_find?_eq_some hfind) (htake.symm.trans (hunknown _))
  | none =>
    rw [hfind] at hline
    have hsame := List.append_cancel_left (List.append_cancel_right hline)
    rw [hs] at hsame
    exact hc (List.cons.inj hsame).1.symm

/-- The operands can be spaced so that the handler has two results. -/
def Differs (env : ShellEnv) (f : CmdFn) (ops : List (List UInt8)) : Prop :=
  ∃ cmd₁ cmd₂, cmdWords (cmd₁.getD []) = ops ∧ cmdWords (cmd₂.getD []) = ops ∧
    ∀ len₁ len₂, (∀ s, cmd₁ = some s → len₁ = s.length) →
      (∀ s, cmd₂ = some s → len₂ = s.length) →
        f.body env cmd₁ len₁ ≠ f.body env cmd₂ len₂

/-- Nothing behind the command, and a blank. -/
theorem differs_null (hnull : ∀ len, f.body env none len = .fault)
    (hnil : f.body env (some []) 0 ≠ .fault) : Differs env f [] := by
  refine ⟨none, some [], rfl, rfl, fun len₁ len₂ _ hlen => ?_⟩
  rw [hnull, hlen [] rfl]
  exact hnil.symm

/-- A handler that tells the blank apart does so on the line itself. -/
theorem differs_spaced (hs : cmdWords s = ops)
    (h : f.body env (some (0x20 :: spaced 0x20 ops)) (0x20 :: spaced 0x20 ops).length ≠
      f.body env (some (spaced 0x20 ops)) (spaced 0x20 ops).length) : Differs env f ops := by
  have hwords : cmdWords (spaced 0x20 ops) = ops := by
    rw [← hs]
    exact words_spaced (mem_blank.2 rfl) s
  refine ⟨some (0x20 :: spaced 0x20 ops), some (spaced 0x20 ops), ?_, hwords,
    fun len₁ len₂ hlen₁ hlen₂ => ?_⟩
  · exact (words_cons_of_pos (mem_blank.2 rfl)).trans hwords
  · rw [hlen₁ _ rfl, hlen₂ _ rfl]
    exact h

/-- **Where the blanks count**, the operands have two results. -/
theorem differs_of_not_indifferent (hauth : env.denies f = false) (hs : cmdWords s = ops)
    (hnul : 0 ∉ s) (hnot : ¬ Indifferent ops f) : Differs env f ops := by
  by_cases hne : ops = []
  · subst hne
    cases f with
    | cmdEnable =>
      exact differs_null (fun _ => rfl) (by decide +kernel : enableText [] ≠ .fault)
    | cmdDisplaySchib =>
      exact differs_null (fun _ => rfl) (by decide +kernel : displaySchibText [] ≠ .fault)
    | cmdDisplayPsw =>
      exact differs_null (fun _ => rfl) (by decide +kernel : displayPswText [] ≠ .fault)
    | cmdDisplayStorage =>
      exact differs_null (fun _ => rfl) (by decide +kernel : displayStorageText [] ≠ .fault)
    | cmdStoreStorage =>
      exact differs_null (fun _ => rfl) (by decide +kernel : storeStorageText [] ≠ .fault)
    | cmdIpl => exact differs_null (fun _ => rfl) nofun
    | cmdSystem =>
      exact differs_null (fun _ => rfl) (by decide +kernel : systemText [] ≠ .fault)
    | cmdQueryReal =>
      -- a second blank is an operand
      refine ⟨some [], some [0x20], rfl, rfl, fun len₁ len₂ hlen₁ hlen₂ => ?_⟩
      rw [hlen₁ _ rfl, hlen₂ _ rfl]
      exact (by decide +kernel : queryRealText [] 0 ≠ queryRealText [0x20] 1)
    | cmdStoreAr | cmdStoreCr | cmdStoreFpr | cmdStoreGpr =>
      refine absurd (fun h => ?_) hnot
      obtain ⟨⟨w, hw, -⟩, -⟩ := h
      cases hw
    | cmdStoreFpcr | cmdStorePsw => exact absurd (fun w hw => nomatch hw) hnot
    | _ => exact absurd trivial hnot
  · have hkey {α : Type} {keywords : List (List UInt8 × α)} {p : Prop}
        (h : ¬ (ops ≠ [] ∧ ¬ IsKeyword keywords ops ∧ p)) :
        ¬ ((∀ w, ops = [w] → ¬ Matches keywords w) ∧ p) := fun hcond =>
      h ⟨hne, fun ⟨w, hw, hmatch⟩ => hcond.1 w hw hmatch, hcond.2⟩
    obtain ⟨c, l, hc, hcons⟩ := exists_spaced_eq_cons hs hne
    have hclean := zero_notMem_spaced hs hnul
    refine differs_spaced hs ?_
    cases f with
    | cmdEnable =>
      exact scans_enable.option_differs (g := derefs enableText) hs hnul hne (hkey hnot)
    | cmdDisplaySchib =>
      exact scans_displaySchib.option_differs (g := derefs displaySchibText) hs hnul hne (hkey hnot)
    | cmdDisplayPsw =>
      refine scans_displayPsw.option_differs (g := derefs displayPswText) hs hnul hne
        fun hcond => ?_
      exact hnot ⟨hne, fun ⟨w, hw, hmatch⟩ => hcond.1 w hw hmatch⟩
    | cmdDisplayStorage =>
      exact scans_displayStorage.option_differs (g := derefs displayStorageText) hs hnul hne
        fun hcond => hnot hcond.2
    | cmdStoreStorage =>
      exact scans_storeStorage.option_differs (g := derefs storeStorageText) hs hnul hne
        fun hcond => hnot hcond.2
    | cmdStoreAr | cmdStoreCr | cmdStoreFpr | cmdStoreGpr =>
      exact (scans_storeRegister _).option_differs hs hnul hne fun hcond => hnot hcond.2
    | cmdStoreFpcr => exact scans_storeFpcr.option_differs hs hnul hne fun hcond => hnot hcond.2
    | cmdStorePsw =>
      exact (scans_storePsw (authG_of_denies hauth)).option_differs (g := fun cmd =>
        .act (.storePsw (Hvf.cmdStorePsw env.auth env.zarch env.psw cmd))) hs hnul hne
        fun hcond => hnot hcond.2
    | cmdQueryReal =>
      exact scans_queryReal.option_differs (g := derefs fun s => queryRealText s s.length) hs hnul
        hne (hkey hnot)
    | cmdIpl =>
      have hshort : ¬ 8 < (spaced 0x20 ops).length := hnot
      rw [hcons] at hshort ⊢
      exact iplText_differs hc hshort
    | cmdSystem => exact systemText_differs hclean hc hcons
    | _ => exact absurd trivial hnot

end

end Hvf
