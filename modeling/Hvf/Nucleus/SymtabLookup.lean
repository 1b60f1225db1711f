/-
# Symbols by address

`symtab_find_text_range` and `symtab_lookup` of `cp/nucleus/symtab.c`.  Both walk over the
symbol table with a cursor that is advanced at the start of a round, before the entry is
looked at, and tested in front of that: `walkTable` is the loop, `visit` what a round does
with the entry.  So the first entry is left out, as it should be, and the last round looks
at what is behind the table (`walkTable_through`).

An `Elf64_Sym` is

  st_name 0 (4 bytes)   st_info 4 (1)   st_value 8 (8)   st_size 16 (8)

Addresses are modulo 2^64, and so is `st_value + st_size`.  A section whose table is at
address 0 counts as missing, as for the C code.
-/

import Hvf.Loader.Symtab

namespace Hvf

open Bytes

namespace Sym

/-- `st_name`: where the name is in the string table. -/
def name (m : Mem) (a : ℕ) : ℕ := Bytes.num m a 4

/-- The binding, the upper half of `st_info`. -/
def bind (m : Mem) (a : ℕ) : ℕ := (m (a + 4)).toNat / 16

/-- The type, the lower half of `st_info`. -/
def type (m : Mem) (a : ℕ) : ℕ := (m (a + 4)).toNat % 16

/-- `st_value`: the symbol's address. -/
def value (m : Mem) (a : ℕ) : ℕ := Bytes.num m (a + 8) 8

/-- `st_size`: its size. -/
def size (m : Mem) (a : ℕ) : ℕ := Bytes.num m (a + 16) 8

/-- Neither of the first two tests `continue`s: `STB_LOCAL` or `STB_GLOBAL`, and
`STT_OBJECT` or `STT_FUNC`. -/
def wanted (m : Mem) (a : ℕ) : Bool :=
  (bind m a = 0 ∨ bind m a = 1) ∧ (type m a = 1 ∨ type m a = 2)

end Sym

/-! ### The program -/

/-- The difference of two pointers, a `ptrdiff_t`. -/
def ptrDiff (a b : ℕ) : ℤ := (BitVec.ofNat 64 a - BitVec.ofNat 64 b).toInt

/-- `((void*)cur) + entsize`. -/
def Section.next (sec : Section) (cur : ℕ) : ℕ := ((cur + sec.entsize) % 2 ^ 64).toNat

variable {α β : Type}

/-- The loop over the table, for at most `fuel` rounds: the entries looked at, and what the
last round leaves (`inl`) or returns (`inr`). -/
def walkTable (sec : Section) (visit : ℕ → α → α ⊕ β) : ℕ → ℕ → α → Option (List ℕ × (α ⊕ β))
  | 0, _, _ => none
  | fuel + 1, cur, acc =>
      if ptrDiff cur sec.table < sec.size then
        match visit (sec.next cur) acc with
        | .inl acc =>
            (walkTable sec visit fuel (sec.next cur) acc).map fun (seen, r) =>
              (sec.next cur :: seen, r)
        | .inr r => some ([sec.next cur], .inr r)
      else some ([], .inl acc)

/-- A section whose pointer is not `NULL`. -/
def Section.present (sec : Section) : Option Section := if sec.table = 0 then none else some sec

/-- A round of `symtab_find_text_range`, with `s` and `e`. -/
def visitRange (m : Mem) (cur : ℕ) (range : ℕ × ℕ) : (ℕ × ℕ) ⊕ Empty :=
  if Sym.wanted m cur then
    .inl (min range.1 (Sym.value m cur),
      max range.2 ((Sym.value m cur + Sym.size m cur) % 2 ^ 64))
  else .inl range

/-- `symtab_find_text_range`: the entries looked at and what is stored in `*start` and
`*end`, if anything. -/
def symtabFindTextRange (fuel : ℕ) (m : Mem) (symtab : ℕ) : Option (List ℕ × Option (ℕ × ℕ)) :=
  match (getSection m symtab shtSymtab).bind Section.present with
  | none => some ([], none)
  | some tab =>
      (walkTable tab (visitRange m) fuel tab.table (2 ^ 64 - 1, 0)).map fun (seen, r) =>
        (seen, r.getLeft?)

/-- A round of `symtab_lookup`.  It returns the arguments of the `snprintf`, the string and
the offset, or nothing for `"???"`. -/
def visitLookup (m : Mem) (strtab : Section) (addr cur : ℕ) (_ : Unit) :
    Unit ⊕ Option (ℕ × ℕ) :=
  if ¬ Sym.wanted m cur then .inl ()
  else if addr < Sym.value m cur then .inl ()
  else if (Sym.value m cur + Sym.size m cur) % 2 ^ 64 ≤ addr then .inl ()
  else if (strtab.size % 2 ^ 32).toNat < Sym.name m cur then .inr none
  else .inr (some ((strtab.table + Sym.name m cur) % 2 ^ 64, addr - Sym.value m cur))

/-- `symtab_lookup`: the entries looked at and the result. -/
def symtabLookup (fuel : ℕ) (m : Mem) (symtab addr : ℕ) : Option (List ℕ × Option (ℕ × ℕ)) :=
  match (getSection m symtab shtSymtab).bind Section.present with
  | none => some ([], none)
  | some tab =>
      match (getSection m symtab shtStrtab).bind Section.present with
      | none => some ([], none)
      | some strtab =>
          (walkTable tab (visitLookup m strtab addr) fuel tab.table ()).map fun (seen, r) =>
            (seen, r.getRight?.join)

/-! ### The loop -/

/-- The cursor after `k` rounds. -/
def Section.entry (sec : Section) (k : ℕ) : ℕ := ((sec.table + k * sec.entsize) % 2 ^ 64).toNat

variable {sec : Section} {visit : ℕ → α → α ⊕ β}

/-- The next entry is the one after it. -/
theorem Section.next_entry (sec : Section) (k : ℕ) :
    sec.next (sec.entry k) = sec.entry (k + 1) := by
  have hpos : 0 ≤ ((sec.table + k * sec.entsize : ℤ) % 2 ^ 64) := Int.emod_nonneg _ (by decide)
  rw [next, entry, entry, Int.toNat_of_nonneg hpos, Int.emod_add_emod]
  congr 2
  push_cast
  ring

/-- The test of the loop after `k` rounds. -/
def Section.inTable (sec : Section) (k : ℕ) : Prop := ptrDiff (sec.entry k) sec.table < sec.size

/-- **A walk that nothing ends early** looks at the entries behind the first one, up to the
first at which the test fails. -/
theorem walkTable_through {fuel i : ℕ} {acc acc' : α} {seen : List ℕ}
    (h : walkTable sec visit fuel (sec.entry i) acc = some (seen, .inl acc')) :
    seen = (List.range' (i + 1) seen.length).map sec.entry ∧
      (∀ j, i ≤ j → j < i + seen.length → sec.inTable j) ∧ ¬ sec.inTable (i + seen.length) := by
  induction fuel generalizing i acc seen with
  | zero => cases h
  | succ fuel ih =>
    rw [walkTable] at h
    by_cases hin : ptrDiff (sec.entry i) sec.table < sec.size
    · rw [if_pos hin, sec.next_entry] at h
      cases hvisit : visit (sec.entry (i + 1)) acc with
      | inr r =>
        rw [hvisit] at h
        cases h
      | inl acc₁ =>
        rw [hvisit] at h
        obtain ⟨⟨seen', r⟩, hrest, heq⟩ := Option.map_eq_some_iff.1 h
        obtain ⟨rfl, rfl⟩ := Prod.mk.inj heq
        obtain ⟨hseen, hall, hend⟩ := ih hrest
        refine ⟨?_, fun j hij hj => ?_, ?_⟩
        · rw [List.length_cons, List.range'_succ, List.map_cons, ← hseen]
        · rcases Nat.eq_or_lt_of_le hij with rfl | hij
          · exact hin
          · exact hall j hij (by rw [List.length_cons] at hj; omega)
        · rw [List.length_cons, Nat.add_comm seen'.length, ← Nat.add_assoc]
          exact hend
    · rw [if_neg hin] at h
      obtain ⟨rfl, -⟩ := Prod.mk.inj (Option.some.inj h)
      exact ⟨rfl, fun j hij hj => absurd hj (by simpa using hij), hin⟩

/-- **A walk that nothing ends early,** from the entries on which it goes. -/
theorem walkTable_done {f : α → ℕ → α} {i n : ℕ} {acc : α}
    (hin : ∀ j, i ≤ j → j < i + n → sec.inTable j) (hend : ¬ sec.inTable (i + n))
    (hvisit : ∀ j, i < j → j ≤ i + n →
      ∀ acc, visit (sec.entry j) acc = .inl (f acc (sec.entry j))) :
    walkTable sec visit (n + 1) (sec.entry i) acc =
      some ((List.range' (i + 1) n).map sec.entry,
        .inl (((List.range' (i + 1) n).map sec.entry).foldl f acc)) := by
  induction n generalizing i acc with
  | zero => exact if_neg hend
  | succ n ih =>
    have hfirst : ptrDiff (sec.entry i) sec.table < sec.size := hin i le_rfl (by omega)
    rw [walkTable, if_pos hfirst, sec.next_entry, hvisit (i + 1) (by omega) (by omega)]
    dsimp only
    rw [ih (fun j hij hj => hin j (by omega) (by omega)) (by rwa [Nat.add_right_comm])
      fun j hij hj => hvisit j (by omega) (by omega), Option.map_some, List.range'_succ,
      List.map_cons, List.foldl_cons]

/-- **A walk that an entry ends.** -/
theorem walkTable_found {f : α → ℕ → α} {b : β} {i n : ℕ} {acc : α}
    (hin : ∀ j, i ≤ j → j < i + (n + 1) → sec.inTable j)
    (hvisit : ∀ j, i < j → j < i + (n + 1) →
      ∀ acc, visit (sec.entry j) acc = .inl (f acc (sec.entry j)))
    (hstop : ∀ acc, visit (sec.entry (i + (n + 1))) acc = .inr b) :
    walkTable sec visit (n + 1) (sec.entry i) acc =
      some ((List.range' (i + 1) (n + 1)).map sec.entry, .inr b) := by
  induction n generalizing i acc with
  | zero =>
    have hfirst : ptrDiff (sec.entry i) sec.table < sec.size := hin i le_rfl (by omega)
    rw [walkTable, if_pos hfirst, sec.next_entry, hstop]
    rfl
  | succ n ih =>
    have hfirst : ptrDiff (sec.entry i) sec.table < sec.size := hin i le_rfl (by omega)
    rw [walkTable, if_pos hfirst, sec.next_entry, hvisit (i + 1) (by omega) (by omega)]
    dsimp only
    have hstop' : ∀ acc, visit (sec.entry (i + 1 + (n + 1))) acc = .inr b := by
      rwa [Nat.add_right_comm]
    rw [ih (fun j hij hj => hin j (by omega) (by omega))
      (fun j hij hj => hvisit j (by omega) (by omega)) hstop', Option.map_some,
      List.range'_succ (s := i + 1) (n := n + 1), List.map_cons]

/-- More rounds change nothing. -/
theorem walkTable_mono {fuel k cur : ℕ} {acc : α} {r : List ℕ × (α ⊕ β)}
    (h : walkTable sec visit fuel cur acc = some r) :
    walkTable sec visit (fuel + k) cur acc = some r := by
  induction fuel generalizing cur acc r with
  | zero => cases h
  | succ fuel ih =>
    rw [Nat.add_right_comm, walkTable]
    rw [walkTable] at h
    by_cases hin : ptrDiff cur sec.table < sec.size
    · rw [if_pos hin] at h ⊢
      cases hvisit : visit (sec.next cur) acc with
      | inr b => rwa [hvisit] at h
      | inl acc' =>
        rw [hvisit] at h
        obtain ⟨r', hr', hr⟩ := Option.map_eq_some_iff.1 h
        dsimp only at hr ⊢
        rw [ih hr', Option.map_some, ← hr]
    · rwa [if_neg hin] at h ⊢

/-- A walk has one result, whatever time it is given. -/
theorem walkTable_unique {fuel fuel' cur : ℕ} {acc : α} {r r' : List ℕ × (α ⊕ β)}
    (h : walkTable sec visit fuel cur acc = some r)
    (h' : walkTable sec visit fuel' cur acc = some r') : r = r' := by
  have hsum := walkTable_mono (k := fuel') h
  rw [Nat.add_comm, walkTable_mono (k := fuel) h'] at hsum
  exact (Option.some.inj hsum).symm

/-- **A walk ends** if the test fails at some time. -/
theorem walkTable_ends {i k : ℕ} (acc : α) (hik : i ≤ k) (hend : ¬ sec.inTable k) :
    ∃ r, walkTable sec visit (k - i + 1) (sec.entry i) acc = some r := by
  obtain ⟨n, rfl⟩ := Nat.exists_eq_add_of_le hik
  rw [Nat.add_sub_cancel_left]
  clear hik
  induction n generalizing i acc with
  | zero => exact ⟨_, if_neg hend⟩
  | succ n ih =>
    rw [walkTable]
    by_cases hin : ptrDiff (sec.entry i) sec.table < sec.size
    · rw [if_pos hin, sec.next_entry]
      cases visit (sec.entry (i + 1)) acc with
      | inr b => exact ⟨_, rfl⟩
      | inl acc' =>
        obtain ⟨r, hr⟩ := ih (i := i + 1) acc' (by rwa [Nat.add_right_comm])
        dsimp only
        rw [hr]
        exact ⟨_, rfl⟩
    · exact ⟨_, if_neg hin⟩

/-- More rounds change nothing. -/
theorem symtabLookup_mono {m : Mem} {symtab addr fuel : ℕ} {r : List ℕ × Option (ℕ × ℕ)}
    (h : symtabLookup fuel m symtab addr = some r) (k : ℕ) :
    symtabLookup (fuel + k) m symtab addr = some r := by
  rw [symtabLookup] at h ⊢
  generalize (getSection m symtab shtSymtab).bind Section.present = tab at h ⊢
  generalize (getSection m symtab shtStrtab).bind Section.present = strtab at h ⊢
  cases tab with
  | none => exact h
  | some tab =>
    cases strtab with
    | none => exact h
    | some strtab =>
      obtain ⟨q, hq, hr⟩ := Option.map_eq_some_iff.1 h
      exact Option.map_eq_some_iff.2 ⟨q, walkTable_mono hq, hr⟩

/-- So has a lookup. -/
theorem symtabLookup_unique {m : Mem} {symtab addr fuel fuel' : ℕ} {r r' : List ℕ × Option (ℕ × ℕ)}
    (h : symtabLookup fuel m symtab addr = some r)
    (h' : symtabLookup fuel' m symtab addr = some r') : r = r' := by
  have hsum := symtabLookup_mono h fuel'
  rw [Nat.add_comm, symtabLookup_mono h' fuel] at hsum
  exact (Option.some.inj hsum).symm

/-! ### Where the test fails -/

/-- **A section as the code holds it**: its sizes are `int`s, and its table is a pointer of
64 bits. -/
structure Section.Ok (sec : Section) : Prop where
  table : sec.table < 2 ^ 64
  entsize : -2 ^ 31 ≤ sec.entsize ∧ sec.entsize < 2 ^ 31
  size : -2 ^ 31 ≤ sec.size ∧ sec.size < 2 ^ 31

/-- An `int` is between -2³¹ and 2³¹. -/
theorem toInt_bounds (n : ℕ) : -2 ^ 31 ≤ toInt n ∧ toInt n < 2 ^ 31 :=
  ⟨BitVec.le_toInt _, BitVec.toInt_lt⟩

/-- A section found is one whose entries can be walked. -/
theorem getSection_ok {m : Mem} {symtab type : ℕ} {sec : Section}
    (h : getSection m symtab type = some sec) : sec.Ok := by
  obtain ⟨i, -, rfl⟩ := Option.map_eq_some_iff.1 h
  exact ⟨Nat.mod_lt _ (by decide), toInt_bounds _, toInt_bounds _⟩

/-- The first entry is at the table's beginning. -/
theorem Section.entry_zero (h : sec.table < 2 ^ 64) : sec.entry 0 = sec.table := by
  rw [entry]
  omega

/-- How far an entry is from the beginning, as a signed difference. -/
theorem ptrDiff_entry (sec : Section) (k : ℕ) :
    ptrDiff (sec.entry k) sec.table = (k * sec.entsize).bmod (2 ^ 64) := by
  have hpos : 0 ≤ ((sec.table + k * sec.entsize : ℤ) % 2 ^ 64) := Int.emod_nonneg _ (by decide)
  have hentry : (sec.entry k : ℤ).bmod (2 ^ 64) = (sec.table + k * sec.entsize).bmod (2 ^ 64) := by
    rw [Section.entry, Int.toNat_of_nonneg hpos]
    exact Int.emod_bmod _ _
  rw [ptrDiff, BitVec.toInt_sub, BitVec.toInt_ofNat', BitVec.toInt_ofNat', hentry,
    Int.bmod_sub_bmod, Int.sub_bmod_bmod, add_sub_cancel_left]

/-- The test, as long as the offset of the cursor is a `ptrdiff_t`. -/
theorem Section.inTable_iff {k : ℕ} (h : -2 ^ 63 ≤ k * sec.entsize ∧ k * sec.entsize < 2 ^ 63) :
    sec.inTable k ↔ k * sec.entsize < sec.size := by
  rw [inTable, ptrDiff_entry, Int.bmod_eq_of_le (by omega) (by omega)]

/-- The test fails at some time unless the entries are empty: behind the table, or, with a
negative size of the entries, when the offset has run through all negative values. -/
theorem Section.exists_not_inTable (h : sec.Ok) (hne : sec.entsize ≠ 0) : ∃ k, ¬ sec.inTable k := by
  obtain ⟨-, ⟨hlow, hhigh⟩, hsize⟩ := h
  rcases lt_or_gt_of_ne hne with hneg | hpos
  · have hdiv := Nat.div_add_mod (2 ^ 63) sec.entsize.natAbs
    have hmod := Nat.mod_lt (2 ^ 63) (show 0 < sec.entsize.natAbs by omega)
    refine ⟨2 ^ 63 / sec.entsize.natAbs + 1, ?_⟩
    generalize 2 ^ 63 / sec.entsize.natAbs = q at hdiv ⊢
    have hoff : ((q + 1 : ℕ) * sec.entsize : ℤ) =
        -((sec.entsize.natAbs * q : ℕ) + sec.entsize.natAbs) := by
      push_cast
      rw [abs_of_neg hneg]
      ring
    rw [inTable, ptrDiff_entry, hoff, ← Int.add_bmod_right, Int.bmod_eq_of_le (by omega) (by omega)]
    omega
  · refine ⟨sec.size.toNat, ?_⟩
    have hle : (sec.size.toNat : ℤ) ≤ sec.size.toNat * sec.entsize :=
      le_mul_of_one_le_right (Int.natCast_nonneg _) (by omega)
    have hbound : (sec.size.toNat * sec.entsize : ℤ) ≤ 2 ^ 31 * 2 ^ 31 :=
      mul_le_mul (by omega) hhigh.le hpos.le (by decide)
    rw [inTable_iff ⟨by omega, by omega⟩]
    omega

/-- With empty entries the cursor stays where it is. -/
theorem Section.entry_of_entsize_zero (h : sec.table < 2 ^ 64) (hzero : sec.entsize = 0) (k : ℕ) :
    sec.entry k = sec.table := by
  rw [entry, hzero]
  omega

/-! ### The end of a lookup -/

/-- The first entry is in the table if there is any byte. -/
theorem Section.inTable_zero (sec : Section) : sec.inTable 0 ↔ 0 < sec.size := by
  rw [inTable_iff (by simp), Nat.cast_zero, zero_mul]

/-- **Exactly when a walk ends** that carries nothing along. -/
theorem walkTable_ends_iff (visit : ℕ → Unit → Unit ⊕ β) (h : sec.Ok) :
    (∃ fuel r, walkTable sec visit fuel sec.table () = some r) ↔
      sec.entsize ≠ 0 ∨ sec.size ≤ 0 ∨ visit sec.table () ≠ .inl () := by
  rw [← sec.entry_zero h.table]
  constructor
  · rintro ⟨fuel, r, hrun⟩
    by_contra hnever
    rw [not_or, not_or, not_not, not_not, not_le] at hnever
    obtain ⟨hempty, hsize, hvisit⟩ := hnever
    have hsame : sec.entry 1 = sec.entry 0 := by
      rw [sec.entry_of_entsize_zero h.table hempty, sec.entry_of_entsize_zero h.table hempty]
    have hin : ptrDiff (sec.entry 0) sec.table < sec.size := sec.inTable_zero.2 hsize
    -- round after round the cursor is at the first entry
    have hnone : ∀ fuel, walkTable sec visit fuel (sec.entry 0) () = none := by
      intro fuel
      induction fuel with
      | zero => rfl
      | succ fuel ih =>
        rw [walkTable, if_pos hin, sec.next_entry, hsame, hvisit]
        dsimp only
        rw [ih]
        rfl
    rw [hnone fuel] at hrun
    cases hrun
  · intro hends
    by_cases hempty : sec.entsize = 0
    · by_cases hsize : sec.size ≤ 0
      · exact ⟨_, walkTable_ends () le_rfl (mt sec.inTable_zero.1 (not_lt.2 hsize))⟩
      · have hstop := (hends.resolve_left (not_not.2 hempty)).resolve_left hsize
        have hin : ptrDiff (sec.entry 0) sec.table < sec.size := sec.inTable_zero.2 (not_le.1 hsize)
        refine ⟨1, ?_⟩
        rw [walkTable, if_pos hin, sec.next_entry, sec.entry_of_entsize_zero h.table hempty]
        rw [sec.entry_of_entsize_zero h.table hempty] at hstop
        cases hvisit : visit sec.table () with
        | inl acc => exact absurd hvisit hstop
        | inr b => exact ⟨_, rfl⟩
    · obtain ⟨k, hk⟩ := Section.exists_not_inTable h hempty
      exact ⟨_, walkTable_ends () (Nat.zero_le k) hk⟩

/-- The tests of `symtab_lookup` do not `continue` at this entry. -/
def Sym.taken (m : Mem) (a addr : ℕ) : Bool :=
  wanted m a ∧ value m a ≤ addr ∧ addr < (value m a + size m a) % 2 ^ 64

/-- The lookup goes on exactly at a symbol that is not taken. -/
theorem visitLookup_eq_inl_iff {m : Mem} {strtab : Section} {addr a : ℕ} {acc acc' : Unit} :
    visitLookup m strtab addr a acc = .inl acc' ↔ Sym.taken m a addr = false := by
  rw [visitLookup, Sym.taken]
  by_cases hwanted : Sym.wanted m a = true
  · rw [if_neg (not_not.2 hwanted)]
    by_cases hlow : addr < Sym.value m a
    · rw [if_pos hlow]
      exact iff_of_true rfl (decide_eq_false fun h => not_lt.2 h.2.1 hlow)
    · rw [if_neg hlow]
      by_cases hhigh : (Sym.value m a + Sym.size m a) % 2 ^ 64 ≤ addr
      · rw [if_pos hhigh]
        exact iff_of_true rfl (decide_eq_false fun h => not_lt.2 hhigh h.2.2)
      · rw [if_neg hhigh, decide_eq_true (show _ ∧ _ ∧ _ from
          ⟨hwanted, not_lt.1 hlow, not_le.1 hhigh⟩)]
        refine iff_of_false (fun h => ?_) (Ne.symm Bool.false_ne_true)
        split at h
        · cases h
        · cases h
  · rw [if_pos hwanted]
    exact iff_of_true rfl (decide_eq_false fun h => hwanted h.1)

/-- The lookup comes to an end: no table, entries that are not empty, no room for one, or a
symbol in the first entry, to which the cursor comes back again and again. -/
def LookupEnds (m : Mem) (symtab addr : ℕ) : Prop :=
  ∀ tab strtab, (getSection m symtab shtSymtab).bind Section.present = some tab →
    (getSection m symtab shtStrtab).bind Section.present = some strtab →
    tab.entsize ≠ 0 ∨ tab.size ≤ 0 ∨ Sym.taken m tab.table addr

/-- **Exactly when `symtab_lookup` ends.** -/
theorem symtabLookup_ends_iff (m : Mem) (symtab addr : ℕ) :
    (∃ fuel r, symtabLookup fuel m symtab addr = some r) ↔ LookupEnds m symtab addr := by
  rw [LookupEnds]
  simp only [symtabLookup]
  cases htab : (getSection m symtab shtSymtab).bind Section.present with
  | none => exact iff_of_true ⟨0, _, rfl⟩ nofun
  | some tab =>
    cases hstrtab : (getSection m symtab shtStrtab).bind Section.present with
    | none => exact iff_of_true ⟨0, _, rfl⟩ nofun
    | some strtab =>
      obtain ⟨sec, hsec, hpresent⟩ := Option.bind_eq_some_iff.1 htab
      have hok : tab.Ok := by
        rw [Section.present] at hpresent
        split at hpresent
        · cases hpresent
        · exact Option.some.inj hpresent ▸ getSection_ok hsec
      have hstop : visitLookup m strtab addr tab.table () ≠ .inl () ↔
          Sym.taken m tab.table addr := by
        rw [Ne, visitLookup_eq_inl_iff, Bool.not_eq_false]
      have hwalk := walkTable_ends_iff (visitLookup m strtab addr) hok
      rw [hstop] at hwalk
      constructor
      · rintro ⟨fuel, r, hrun⟩ tab' strtab' htab' -
        obtain rfl := Option.some.inj htab'
        obtain ⟨q, hq, -⟩ := Option.map_eq_some_iff.1 hrun
        exact hwalk.1 ⟨fuel, q, hq⟩
      · intro hends
        obtain ⟨fuel, q, hq⟩ := hwalk.2 (hends tab strtab rfl rfl)
        exact ⟨fuel, _, congrArg (Option.map _) hq⟩

end Hvf
