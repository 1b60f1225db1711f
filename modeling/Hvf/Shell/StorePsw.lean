/-
# `STORE PSW`

`cmd_store_psw` in `shell/cmd_store.c`.  The guest's PSW is kept in the four words of
`sie_cb.gpsw`, of which an ESA/390 guest uses the first two.

The loop collects hexadecimal words until it has four or one is wrong, and counts what it
has (`pswWords_eq`): what stands behind is not looked at.
-/

import Hvf.Lib.Words
import Hvf.Shell.Operand

namespace Hvf

open Words

/-- `AUTH_G`. -/
def authG : BitVec 8 := 0x02

/-- **The PSW of the guest** (`sie_cb.gpsw`), as the four words that `STORE PSW` stores one
by one. -/
structure Psw where
  w0 : UInt32
  w1 : UInt32
  w2 : UInt32
  w3 : UInt32
deriving DecidableEq, Repr

/-- The words of the PSW of a guest in z/Architecture or in ESA/390 mode. -/
def Psw.words (zarch : Bool) (psw : Psw) : List UInt32 :=
  if zarch then [psw.w0, psw.w1, psw.w2, psw.w3] else [psw.w0, psw.w1]

/-- What the loop has put into `new_words` when it ends. -/
def pswWords : ℕ → Option (List UInt8) → List UInt64
  | 0, _ => []
  | n + 1, cmd =>
    match extractHexPtr cmd with
    | .error _ => []
    | .ok (cmd, word) => word :: pswWords n (consumeWs (some cmd))

/-- What a command handler leaves: its return code, the lines on the console and the
PSW. -/
structure PswReply where
  ret : Int
  lines : List String
  psw : Psw
deriving DecidableEq

/-- `cmd_store_psw`. -/
def cmdStorePsw (auth : BitVec 8) (zarch : Bool) (psw : Psw) (cmd : Option (List UInt8)) :
    PswReply :=
  if auth &&& authG = 0 then ⟨-eperm, [], psw⟩
  else
    let newWords := pswWords 4 cmd
    let cnt := newWords.length
    if cnt = 0 then ⟨-einval, [], psw⟩
    else if zarch = false ∧ 2 < cnt then
      ⟨-einval, ["STORE: ERROR ESA/390 PSW USES ONLY TWO WORDS"], psw⟩
    else
      let word (i : ℕ) := (newWords.getD i 0).toUInt32
      match if zarch then cnt else cnt + 2 with
      | 4 => ⟨0, ["Store complete."], ⟨word 0, word 1, word 2, word 3⟩⟩
      | 3 => ⟨0, ["Store complete."], { psw with w1 := word 0, w2 := word 1, w3 := word 2 }⟩
      | 2 => ⟨0, ["Store complete."], { psw with w2 := word 0, w3 := word 1 }⟩
      | 1 => ⟨0, ["Store complete."], { psw with w3 := word 0 }⟩
      | _ => ⟨-einval, [], psw⟩

/-! ### The words of the operand -/

/-- The words of an operand. -/
def operandWords (cmd : Option (List UInt8)) : List (List UInt8) := Words.words isWs (cmd.getD [])

/-- The operand begins with a blank. -/
def LeadsBlank (cmd : Option (List UInt8)) : Prop := ∃ c ∈ (cmd.getD []).head?, isWs c = true

/-- All characters are hexadecimal digits. -/
def isHexWord (w : List UInt8) : Bool := w.all fun c => digitVal c < 16

/-- How many words are hexadecimal before one that is not. -/
def hexWords (cmd : Option (List UInt8)) : ℕ := ((operandWords cmd).takeWhile isHexWord).length

/-- One to four words, or one or two for an ESA/390 guest, hexadecimal and less
than `2 ^ 32`. -/
def PswOperand (zarch : Bool) (cmd : Option (List UInt8)) : Prop :=
  1 ≤ (operandWords cmd).length ∧ (operandWords cmd).length ≤ (if zarch then 4 else 2) ∧
    ∀ w ∈ operandWords cmd, isHexWord w = true ∧ numeral 16 w < 2 ^ 32

/-- Whether an operand is a PSW is decided from its words. -/
instance (zarch : Bool) (cmd : Option (List UInt8)) : Decidable (PswOperand zarch cmd) :=
  inferInstanceAs (Decidable (_ ∧ _ ∧ ∀ w ∈ operandWords cmd, _))

/-- A word up to a blank is extracted if it is hexadecimal. -/
theorem extractHexPtr_word {w rest : List UInt8} (hne : w ≠ []) (hw : ∀ c ∈ w, isWs c = false)
    (hrest : ∀ c ∈ rest.head?, isWs c = true) :
    extractHexPtr (some (w ++ rest)) =
      if isHexWord w then .ok (rest, UInt64.ofNat (numeral 16 w)) else .error (-einval) := by
  split_ifs with hhex
  · refine extractHexPtr_eq_ok_iff.2 ⟨_, ⟨⟨w, rfl, hne, ?_, rfl⟩, hrest⟩, UInt64.toNat_ofNat ..⟩
    simpa [isHexWord] using hhex
  · cases hr : extractHexPtr (some (w ++ rest)) with
    | error e => rw [extractHexPtr_eq_error hr]
    | ok out =>
      obtain ⟨r, v⟩ := out
      obtain ⟨n, ⟨⟨run, hs, -, hrun, -⟩, hr'⟩, -⟩ := extractHexPtr_eq_ok_iff.1 hr
      -- The run of digits is the word.
      have hws : ∀ c ∈ run, isWs c = false := by
        intro c hc
        by_contra hblank
        have hval := digitVal_of_isWs (by simpa using hblank)
        have hlt := hrun c hc
        omega
      have hrun' : w = run := by
        rw [← takeWhile_word hw hrest, hs, takeWhile_word hws hr']
      exact absurd (by simpa [isHexWord, hrun'] using hrun) hhex

/-- The loop takes the hexadecimal words in front. -/
theorem pswWords_eq (n : ℕ) {s : List UInt8} (hhead : ∀ c ∈ s.head?, isWs c = false) :
    pswWords n (some s) =
      (((Words.words isWs s).takeWhile isHexWord).take n).map fun w =>
        UInt64.ofNat (numeral 16 w) := by
  induction n generalizing s with
  | zero => rfl
  | succ n ih =>
    have hdrop : s.dropWhile isWs = s := by
      cases s with
      | nil => rfl
      | cons c s => exact List.dropWhile_cons_of_neg (by simp [hhead c rfl])
    rw [pswWords]
    obtain hall | ⟨w, rest, hne, hw, hrest, hs⟩ := exists_word isWs s
    · have hnil : s = [] := by
        rw [← hdrop]
        exact List.dropWhile_eq_nil_iff.2 hall
      rw [hnil]
      rfl
    · rw [hdrop] at hs
      rw [hs, extractHexPtr_word hne hw hrest, words_append hne hw hrest]
      by_cases hhex : isHexWord w = true
      · have hnext : ∀ c ∈ (rest.dropWhile isWs).head?, isWs c = false := by
          intro c hc
          have hnot := List.head?_dropWhile_not isWs rest
          rw [Option.mem_def.1 hc] at hnot
          simpa using hnot
        rw [if_pos hhex, List.takeWhile_cons_of_pos hhex, List.take_succ_cons, List.map_cons,
          ← words_dropWhile isWs rest]
        exact congrArg _ (ih hnext)
      · rw [if_neg hhex, List.takeWhile_cons_of_neg hhex]
        rfl

/-- What the loop takes of an operand with a blank in front: nothing. -/
theorem pswWords_of_leadsBlank {cmd : Option (List UInt8)} (h : LeadsBlank cmd) (n : ℕ) :
    pswWords n cmd = [] := by
  obtain ⟨c, hc, hblank⟩ := h
  cases n with
  | zero => rfl
  | succ n =>
    cases hr : extractHexPtr cmd with
    | error e => rw [pswWords, hr]
    | ok out =>
      obtain ⟨rest, v⟩ := out
      cases cmd with
      | none => cases hc
      | some s =>
        obtain ⟨m, ⟨⟨_ | ⟨d, run⟩, hs, hne, hrun, -⟩, -⟩, -⟩ := extractHexPtr_eq_ok_iff.1 hr
        · exact absurd rfl hne
        · rw [Option.getD_some, hs] at hc
          obtain rfl : d = c := Option.some.inj hc
          have hlt := hrun d (List.mem_cons_self ..)
          rw [digitVal_of_isWs hblank] at hlt
          omega

/-- Without a blank in front, the words stored are the hexadecimal ones the operand begins with.
-/
theorem pswWords_of_not_leadsBlank {cmd : Option (List UInt8)} (h : ¬ LeadsBlank cmd) (n : ℕ) :
    pswWords n cmd = (((operandWords cmd).takeWhile isHexWord).take n).map
      fun w => UInt64.ofNat (numeral 16 w) := by
  cases cmd with
  | none => cases n <;> rfl
  | some s => exact pswWords_eq n fun c hc => by simpa using fun hblank => h ⟨c, hc, hblank⟩

/-! ### All or nothing -/

/-- The PSW of the guest is changed by a right operand only, and then in the words that
belong to their count, right-aligned. -/
def AllOrNothing (auth : BitVec 8) (zarch : Bool) (psw : Psw) (cmd : Option (List UInt8))
    (r : PswReply) : Prop :=
  if auth &&& authG ≠ 0 ∧ PswOperand zarch cmd then
    r.ret = 0 ∧ r.psw.words zarch =
      (psw.words zarch).take ((psw.words zarch).length - (operandWords cmd).length) ++
        (operandWords cmd).map fun w => UInt32.ofNat (numeral 16 w)
  else r.ret ≠ 0 ∧ r.psw = psw

/-- The words behind the PSW of an ESA/390 guest are as before. -/
def KeepsRest (zarch : Bool) (psw : Psw) (r : PswReply) : Prop :=
  zarch = false → r.psw.w2 = psw.w2 ∧ r.psw.w3 = psw.w3

/-- A right operand has no blank in front; a wrong one has, or its first word is not
hexadecimal, or the guest is an ESA/390 guest and the first three are. -/
def PswSafe (auth : BitVec 8) (zarch : Bool) (cmd : Option (List UInt8)) : Prop :=
  if auth &&& authG ≠ 0 ∧ PswOperand zarch cmd then ¬ LeadsBlank cmd
  else auth &&& authG = 0 ∨ LeadsBlank cmd ∨ hexWords cmd = 0 ∨ zarch = false ∧ 2 < hexWords cmd

variable {auth : BitVec 8} {zarch : Bool} {psw : Psw} {cmd : Option (List UInt8)}

/-- The value of a word that fits. -/
theorem toUInt32_ofNat {n : ℕ} (h : n < 2 ^ 32) : (UInt64.ofNat n).toUInt32 = UInt32.ofNat n := by
  apply UInt32.toNat.inj
  rw [UInt64.toNat_toUInt32, UInt64.toNat_ofNat_of_lt' (h.trans (by decide)), UInt32.toNat_ofNat']

/-- The words of a right operand. -/
theorem pswWords_of_operand (h : PswOperand zarch cmd) (hlead : ¬ LeadsBlank cmd) :
    (pswWords 4 cmd).map UInt64.toUInt32 =
      (operandWords cmd).map fun w => UInt32.ofNat (numeral 16 w) := by
  have hfour : (operandWords cmd).length ≤ 4 := by
    have hle := h.2.1
    split_ifs at hle <;> omega
  rw [pswWords_of_not_leadsBlank hlead, List.takeWhile_eq_self_iff.2 fun w hw => (h.2.2 w hw).1,
    List.take_of_length_le hfour, List.map_map]
  exact List.map_congr_left fun w hw => toUInt32_ofNat (h.2.2 w hw).2

/-- One to four words of a z/Architecture guest, and one or two of an ESA/390 guest, are
stored right-aligned. -/
theorem cmdStorePsw_stores (psw : Psw) (hauth : auth &&& authG ≠ 0)
    (hpos : 1 ≤ (pswWords 4 cmd).length)
    (hle : (pswWords 4 cmd).length ≤ if zarch then 4 else 2) :
    (cmdStorePsw auth zarch psw cmd).ret = 0 ∧
      (cmdStorePsw auth zarch psw cmd).psw.words zarch =
        (psw.words zarch).take ((psw.words zarch).length - (pswWords 4 cmd).length) ++
          (pswWords 4 cmd).map UInt64.toUInt32 ∧
      (zarch = false → (cmdStorePsw auth zarch psw cmd).psw.w2 = 0 ∧
        (cmdStorePsw auth zarch psw cmd).psw.w3 = 0) := by
  unfold cmdStorePsw
  rw [if_neg hauth]
  generalize pswWords 4 cmd = ws at hpos hle
  have hzero : ¬ ws.length = 0 := by omega
  cases zarch
  · have hesa : ¬ (false = false ∧ 2 < ws.length) := fun h => absurd (h.2.trans_le hle) (by decide)
    dsimp only
    rw [if_neg hzero, if_neg hesa]
    match ws, hpos, hle with
    | [_], _, _ => exact ⟨rfl, rfl, fun _ => ⟨rfl, rfl⟩⟩
    | [_, _], _, _ => exact ⟨rfl, rfl, fun _ => ⟨rfl, rfl⟩⟩
    | _ :: _ :: _ :: ws, _, hle => simp at hle
  · have hesa : ¬ (true = false ∧ 2 < ws.length) := fun h => absurd h.1 (by decide)
    dsimp only
    rw [if_neg hzero, if_neg hesa]
    match ws, hpos, hle with
    | [_], _, _ => exact ⟨rfl, rfl, nofun⟩
    | [_, _], _, _ => exact ⟨rfl, rfl, nofun⟩
    | [_, _, _], _, _ => exact ⟨rfl, rfl, nofun⟩
    | [_, _, _, _], _, _ => exact ⟨rfl, rfl, nofun⟩
    | _ :: _ :: _ :: _ :: _ :: ws, _, hle =>
      rw [if_pos rfl] at hle
      simp only [List.length_cons] at hle
      omega

/-- What is rejected, and leaves the PSW as it is. -/
theorem cmdStorePsw_rejects (psw : Psw)
    (h : auth &&& authG = 0 ∨ (pswWords 4 cmd).length = 0 ∨
      zarch = false ∧ 2 < (pswWords 4 cmd).length) :
    (cmdStorePsw auth zarch psw cmd).ret ≠ 0 ∧ (cmdStorePsw auth zarch psw cmd).psw = psw := by
  unfold cmdStorePsw
  by_cases hauth : auth &&& authG = 0
  · rw [if_pos hauth]
    exact ⟨(by decide : -eperm ≠ 0), rfl⟩
  · rw [if_neg hauth]
    dsimp only
    by_cases hzero : (pswWords 4 cmd).length = 0
    · rw [if_pos hzero]
      exact ⟨(by decide : -einval ≠ 0), rfl⟩
    · rw [if_neg hzero, if_pos ((h.resolve_left hauth).resolve_left hzero)]
      exact ⟨(by decide : -einval ≠ 0), rfl⟩

/-- An operand with a blank in front is rejected. -/
theorem cmdStorePsw_of_leadsBlank (h : LeadsBlank cmd) (auth : BitVec 8) (zarch : Bool)
    (psw : Psw) :
    (cmdStorePsw auth zarch psw cmd).ret ≠ 0 ∧ (cmdStorePsw auth zarch psw cmd).psw = psw :=
  cmdStorePsw_rejects psw
    (Or.inr (Or.inl (congrArg List.length (pswWords_of_leadsBlank h 4))))

/-- There are at most four of them. -/
theorem length_pswWords (hlead : ¬ LeadsBlank cmd) :
    (pswWords 4 cmd).length = min 4 (hexWords cmd) := by
  rw [pswWords_of_not_leadsBlank hlead, List.length_map, List.length_take, hexWords]

/-- The words that are taken are not more than there are for the guest. -/
theorem length_pswWords_le (h : ¬ (zarch = false ∧ 2 < (pswWords 4 cmd).length)) :
    (pswWords 4 cmd).length ≤ if zarch then 4 else 2 := by
  have hfour : (pswWords 4 cmd).length ≤ 4 := by
    by_cases hlead : LeadsBlank cmd
    · rw [pswWords_of_leadsBlank hlead]
      exact Nat.zero_le _
    · rw [length_pswWords hlead]
      exact min_le_left ..
  cases zarch
  · exact not_lt.1 fun hlt => h ⟨rfl, hlt⟩
  · exact hfour

/-- **`STORE PSW` is all or nothing exactly when** a right operand has no blank in front, and a
wrong one has, or has no hexadecimal word in front, or too many of them for an ESA/390 guest.  The
words behind the PSW of an ESA/390 guest are kept if they are 0. -/
theorem cmdStorePsw_allOrNothing_iff (auth : BitVec 8) (zarch : Bool) (psw : Psw)
    (cmd : Option (List UInt8)) :
    (AllOrNothing auth zarch psw cmd (cmdStorePsw auth zarch psw cmd) ↔ PswSafe auth zarch cmd) ∧
    (AllOrNothing auth zarch psw cmd (cmdStorePsw auth zarch psw cmd) ∧
        KeepsRest zarch psw (cmdStorePsw auth zarch psw cmd) ↔
      PswSafe auth zarch cmd ∧ (zarch = false → auth &&& authG ≠ 0 ∧ PswOperand zarch cmd →
        psw.w2 = 0 ∧ psw.w3 = 0)) := by
  unfold AllOrNothing PswSafe KeepsRest
  by_cases hvalid : auth &&& authG ≠ 0 ∧ PswOperand zarch cmd
  · rw [if_pos hvalid, if_pos hvalid]
    by_cases hlead : LeadsBlank cmd
    · -- The operand is right, and is rejected.
      have hrej := cmdStorePsw_of_leadsBlank hlead auth zarch psw
      exact ⟨iff_of_false (fun h => hrej.1 h.1) fun h => h hlead,
        iff_of_false (fun h => hrej.1 h.1.1) fun h => h.1 hlead⟩
    · have hwords := pswWords_of_operand hvalid.2 hlead
      have hlen : (pswWords 4 cmd).length = (operandWords cmd).length := by
        rw [← List.length_map UInt64.toUInt32, hwords, List.length_map]
      obtain ⟨hret, hpsw, hrest⟩ := cmdStorePsw_stores psw hvalid.1
        (hlen ▸ hvalid.2.1) (hlen ▸ hvalid.2.2.1)
      rw [hwords, hlen] at hpsw
      have hdone := And.intro hret hpsw
      refine ⟨iff_of_true hdone hlead, ?_⟩
      rw [and_iff_right hdone, and_iff_right hlead]
      constructor
      · intro h hz _
        rw [← (h hz).1, ← (h hz).2]
        exact hrest hz
      · intro h hz
        rw [(h hz hvalid).1, (h hz hvalid).2]
        exact hrest hz
  · rw [if_neg hvalid, if_neg hvalid]
    have hkeep : (cmdStorePsw auth zarch psw cmd).psw = psw →
        zarch = false → (cmdStorePsw auth zarch psw cmd).psw.w2 = psw.w2 ∧
          (cmdStorePsw auth zarch psw cmd).psw.w3 = psw.w3 := fun h _ => by rw [h]; exact ⟨rfl, rfl⟩
    have hmain : (cmdStorePsw auth zarch psw cmd).ret ≠ 0 ∧
        (cmdStorePsw auth zarch psw cmd).psw = psw ↔
        auth &&& authG = 0 ∨ LeadsBlank cmd ∨ hexWords cmd = 0 ∨
          zarch = false ∧ 2 < hexWords cmd := by
      by_cases hlead : LeadsBlank cmd
      · exact iff_of_true (cmdStorePsw_of_leadsBlank hlead auth zarch psw) (Or.inr (Or.inl hlead))
      · have hlen := length_pswWords hlead
        by_cases hrej : auth &&& authG = 0 ∨ (pswWords 4 cmd).length = 0 ∨
            zarch = false ∧ 2 < (pswWords 4 cmd).length
        · refine iff_of_true (cmdStorePsw_rejects psw hrej) ?_
          rw [hlen] at hrej
          refine hrej.imp_right fun h => Or.inr (h.imp (fun h => ?_) fun h => ⟨h.1, ?_⟩)
          · omega
          · omega
        · obtain ⟨hauth, hpos, htwo⟩ : auth &&& authG ≠ 0 ∧ (pswWords 4 cmd).length ≠ 0 ∧
              ¬ (zarch = false ∧ 2 < (pswWords 4 cmd).length) := by
            simpa only [not_or] using hrej
          have hstored := cmdStorePsw_stores psw hauth (by omega) (length_pswWords_le htwo)
          refine iff_of_false (fun h => h.1 hstored.1) ?_
          rw [hlen] at hpos htwo
          rintro (h | h | h | ⟨hz, h⟩)
          · exact hauth h
          · exact hlead h
          · omega
          · exact htwo ⟨hz, by omega⟩
    exact ⟨hmain, ⟨fun h => ⟨hmain.1 h.1, fun _ hv => absurd hv hvalid⟩,
      fun h => ⟨hmain.2 h.1, hkeep (hmain.2 h.1).2⟩⟩⟩

/-- `STORE PSW 1 X` stores the first word of the PSW, then finds that the second is none. -/
theorem not_cmdStorePsw_allOrNothing :
    ¬ ∀ auth zarch psw cmd,
      AllOrNothing auth zarch psw cmd (cmdStorePsw auth zarch psw cmd) := by
  intro h
  have hx := h authG true ⟨0, 0, 0, 0⟩ (some [0x31, 0x20, 0x58])
  unfold AllOrNothing at hx
  rw [if_neg (by decide)] at hx
  exact absurd hx.1 (by decide)

end Hvf
