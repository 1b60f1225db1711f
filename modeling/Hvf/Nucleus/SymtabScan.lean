/-
# Scans of the symbol table

What the two scans are to do with a symbol section of `n = sh_size / sh_entsize` entries
(`ScanMeets`), and exactly when they do it (`scanMeets_iff`).  They look at as many
entries as `(int) sh_size` has room for, rounded up, but begin with the second one; so
with any entry at all they come out right only where the `int` has lost the upper half of
an `sh_size` of more than 2^32.
-/

import Hvf.Loader.SymtabImage
import Hvf.Nucleus.SymtabLookup

namespace Hvf

open Bytes

/-! ### The sections -/

/-- The header of the symbol section, the first one of its type. -/
def symbolHeader (m : Mem) (symtab : ℕ) : Option ℕ :=
  ((List.range (Ehdr.shnum m symtab)).find? fun i =>
    Shdr.type m (shdrAt m symtab i) = shtSymtab).map (shdrAt m symtab)

/-- The header of the strings that belong to it. -/
def stringHeader (m : Mem) (symtab sh : ℕ) : ℕ := shdrAt m symtab (Shdr.link m sh)

/-- What `get_section` makes of a header. -/
def sectionAt (m : Mem) (symtab sh : ℕ) : Section :=
  ⟨(symtab + Shdr.offset m sh) % 2 ^ 64, toInt (Shdr.entsize m sh), toInt (Shdr.size m sh)⟩

/-- The number of entries. -/
def symbolCount (m : Mem) (sh : ℕ) : ℕ := Shdr.size m sh / Shdr.entsize m sh

/-- Entry `k`. -/
def symbolAt (m : Mem) (symtab sh k : ℕ) : ℕ :=
  (symtab + Shdr.offset m sh + k * Shdr.entsize m sh) % 2 ^ 64

/-- The entries behind the null symbol. -/
def symbols (m : Mem) (symtab sh : ℕ) : List ℕ :=
  (List.range' 1 (symbolCount m sh - 1)).map (symbolAt m symtab sh)

/-- The range of the symbol contains the address. -/
def Sym.contains (m : Mem) (a addr : ℕ) : Bool :=
  Sym.wanted m a ∧ Sym.value m a ≤ addr ∧ addr < Sym.value m a + Sym.size m a

/-- The first entry behind the null symbol whose range contains the address. -/
def firstSymbol (m : Mem) (symtab sh addr : ℕ) : Option ℕ :=
  (List.range' 1 (symbolCount m sh - 1)).find? fun k =>
    Sym.contains m (symbolAt m symtab sh k) addr

/-! ### What the scans are to do -/

/-- `symtab_find_text_range` looks at the entries behind the null symbol, all of them in the
table, and finds the least start and the greatest end. -/
structure RangeMeets (m : Mem) (symtab sh : ℕ) : Prop where
  inside : ∀ k, 1 ≤ k → k < symbolCount m sh → k * Shdr.entsize m sh + 24 ≤ Shdr.size m sh
  found : ∃ fuel start stop,
    symtabFindTextRange fuel m symtab = some (symbols m symtab sh, some (start, stop)) ∧
      ((∃ a ∈ symbols m symtab sh, Sym.wanted m a) →
        IsLeast {v | ∃ a ∈ symbols m symtab sh, Sym.wanted m a ∧ v = Sym.value m a} start ∧
        IsGreatest {v | ∃ a ∈ symbols m symtab sh, Sym.wanted m a ∧
          v = Sym.value m a + Sym.size m a} stop)

/-- `symtab_lookup` looks at the entries behind the null symbol up to the first whose range
contains the address, and returns its name and the offset, or `"???"` if there is none. -/
def LookupMeets (m : Mem) (symtab sh addr : ℕ) : Prop :=
  ∃ fuel, symtabLookup fuel m symtab addr = some (
    match firstSymbol m symtab sh addr with
    | some k => ((List.range' 1 k).map (symbolAt m symtab sh),
        some (((sectionAt m symtab (stringHeader m symtab sh)).table +
          Sym.name m (symbolAt m symtab sh k)) % 2 ^ 64,
          addr - Sym.value m (symbolAt m symtab sh k)))
    | none => (symbols m symtab sh, none))

/-- Both scans of a symbol section. -/
def ScanMeets (m : Mem) (symtab sh addr : ℕ) : Prop :=
  RangeMeets m symtab sh ∧ LookupMeets m symtab sh addr

/-- The rounds that `(int) sh_size` has room for are those for the entries behind the null
symbol: none, or `n - 1`. -/
def RoundsFit (m : Mem) (sh : ℕ) : Prop :=
  toInt (Shdr.size m sh) ≤ 0 ∧ symbolCount m sh ≤ 1 ∨
    2 ≤ symbolCount m sh ∧ Shdr.entsize m sh < 2 ^ 31 ∧
      ((symbolCount m sh : ℤ) - 2) * Shdr.entsize m sh < toInt (Shdr.size m sh) ∧
      toInt (Shdr.size m sh) ≤ ((symbolCount m sh : ℤ) - 1) * Shdr.entsize m sh

/-- **The section is one that both scans get right**: its tables are there, the rounds fit
the number of its symbols, no symbol's end wraps, and the name that is found begins within
the string table, whose size is read as an `unsigned int`. -/
structure ScanFits (m : Mem) (symtab sh addr : ℕ) : Prop where
  table : (sectionAt m symtab sh).table ≠ 0
  rounds : RoundsFit m sh
  ends : ∀ a ∈ symbols m symtab sh, Sym.wanted m a → Sym.value m a + Sym.size m a < 2 ^ 64
  strings : (sectionAt m symtab (stringHeader m symtab sh)).table ≠ 0 ∨ symbolCount m sh ≤ 1
  name : ∀ k, firstSymbol m symtab sh addr = some k → Sym.name m (symbolAt m symtab sh k) ≤
    Shdr.size m (stringHeader m symtab sh) % 2 ^ 32

variable {m : Mem} {symtab sh addr : ℕ}

/-! ### The sections are found -/

/-- The symbol table found is the one the header describes. -/
theorem getSection_symtab (h : symbolHeader m symtab = some sh) :
    getSection m symtab shtSymtab = some (sectionAt m symtab sh) := by
  obtain ⟨i, hfind, rfl⟩ := Option.map_eq_some_iff.1 h
  rw [getSection, if_neg (by decide), hfind]
  rfl

/-- The string table found is the one that header links to. -/
theorem getSection_strtab (h : symbolHeader m symtab = some sh) :
    getSection m symtab shtStrtab = some (sectionAt m symtab (stringHeader m symtab sh)) := by
  obtain ⟨i, hfind, rfl⟩ := Option.map_eq_some_iff.1 h
  rw [getSection, if_pos rfl, hfind]
  rfl

/-- A section read from a header is one whose entries can be walked. -/
theorem sectionAt_ok (m : Mem) (symtab sh : ℕ) : (sectionAt m symtab sh).Ok :=
  ⟨Nat.mod_lt _ (by decide), toInt_bounds _, toInt_bounds _⟩

/-- Without a table the range is not looked for. -/
theorem findTextRange_null (h : symbolHeader m symtab = some sh)
    (hnull : (sectionAt m symtab sh).table = 0) (fuel : ℕ) :
    symtabFindTextRange fuel m symtab = some ([], none) := by
  rw [symtabFindTextRange, getSection_symtab h, Option.bind_some, Section.present, if_pos hnull]

/-- **The search for the text's range is a walk** over the symbol table, from an empty range on.
-/
theorem findTextRange_eq (h : symbolHeader m symtab = some sh)
    (htable : (sectionAt m symtab sh).table ≠ 0) (fuel : ℕ) :
    symtabFindTextRange fuel m symtab =
      (walkTable (sectionAt m symtab sh) (visitRange m) fuel ((sectionAt m symtab sh).entry 0)
        (2 ^ 64 - 1, 0)).map fun (seen, r) => (seen, r.getLeft?) := by
  rw [symtabFindTextRange, getSection_symtab h, Option.bind_some, Section.present, if_neg htable,
    (sectionAt m symtab sh).entry_zero (sectionAt_ok m symtab sh).table]

/-- Without one of the tables nothing is looked up. -/
theorem lookup_null (h : symbolHeader m symtab = some sh)
    (hnull : (sectionAt m symtab sh).table = 0 ∨
      (sectionAt m symtab (stringHeader m symtab sh)).table = 0) (fuel : ℕ) :
    symtabLookup fuel m symtab addr = some ([], none) := by
  rw [symtabLookup, getSection_symtab h, getSection_strtab h, Option.bind_some, Option.bind_some,
    Section.present, Section.present]
  by_cases htable : (sectionAt m symtab sh).table = 0
  · rw [if_pos htable]
  · rw [if_neg htable, if_pos (hnull.resolve_left htable)]

/-- **The lookup is a walk** over the symbol table. -/
theorem lookup_eq (h : symbolHeader m symtab = some sh)
    (htable : (sectionAt m symtab sh).table ≠ 0)
    (hstrings : (sectionAt m symtab (stringHeader m symtab sh)).table ≠ 0) (fuel : ℕ) :
    symtabLookup fuel m symtab addr =
      (walkTable (sectionAt m symtab sh)
        (visitLookup m (sectionAt m symtab (stringHeader m symtab sh)) addr) fuel
        ((sectionAt m symtab sh).entry 0) ()).map fun (seen, r) => (seen, r.getRight?.join) := by
  rw [symtabLookup, getSection_symtab h, getSection_strtab h, Option.bind_some, Option.bind_some,
    Section.present, Section.present, if_neg htable, if_neg hstrings,
    (sectionAt m symtab sh).entry_zero (sectionAt_ok m symtab sh).table]

/-! ### The rounds -/

/-- The entries walked are the symbols, if an entry's size is a positive `int`. -/
theorem entry_eq_symbolAt (h : Shdr.entsize m sh < 2 ^ 31) (k : ℕ) :
    (sectionAt m symtab sh).entry k = symbolAt m symtab sh k := by
  rw [Section.entry, sectionAt, toInt_eq_iff.2 h, symbolAt]
  push_cast
  rw [Int.emod_add_emod]
  rfl

/-- **With `RoundsFit`** the rounds are those for the entries behind the null symbol. -/
theorem RoundsFit.rounds (h : RoundsFit m sh) (symtab : ℕ) :
    (∀ j < symbolCount m sh - 1, (sectionAt m symtab sh).inTable j) ∧
      ¬ (sectionAt m symtab sh).inTable (symbolCount m sh - 1) ∧
      ∀ k, 1 ≤ k → k ≤ symbolCount m sh - 1 →
        (sectionAt m symtab sh).entry k = symbolAt m symtab sh k := by
  have hsize := (toInt_bounds (Shdr.size m sh)).2
  rcases h with ⟨hempty, hone⟩ | ⟨htwo, hentsize, hlow, hhigh⟩
  · have hzero : symbolCount m sh - 1 = 0 := by omega
    rw [hzero, Section.inTable_iff (by simp)]
    refine ⟨fun j hj => absurd hj (Nat.not_lt_zero j), ?_, fun k hk hle => by omega⟩
    rw [Nat.cast_zero, zero_mul]
    exact not_lt.2 hempty
  · have hlast : ((symbolCount m sh : ℤ) - 1) * Shdr.entsize m sh =
        ((symbolCount m sh : ℤ) - 2) * Shdr.entsize m sh + Shdr.entsize m sh := by ring
    have hoff : ∀ j : ℕ, j ≤ symbolCount m sh - 1 → (0 : ℤ) ≤ j * Shdr.entsize m sh ∧
        (j * Shdr.entsize m sh : ℤ) ≤ ((symbolCount m sh : ℤ) - 1) * Shdr.entsize m sh :=
      fun j hj => ⟨mul_nonneg (Int.natCast_nonneg _) (Int.natCast_nonneg _),
        mul_le_mul_of_nonneg_right (by omega) (Int.natCast_nonneg _)⟩
    have htest : ∀ j ≤ symbolCount m sh - 1, (sectionAt m symtab sh).inTable j ↔
        (j * Shdr.entsize m sh : ℤ) < toInt (Shdr.size m sh) := by
      intro j hj
      have hj' := hoff j hj
      have hint : (sectionAt m symtab sh).entsize = Shdr.entsize m sh := toInt_eq_iff.2 hentsize
      rw [Section.inTable_iff (by rw [hint]; omega), hint]
      rfl
    refine ⟨fun j hj => (htest j hj.le).2 ?_, fun hin => ?_,
      fun k _ _ => entry_eq_symbolAt hentsize k⟩
    · have hle : (j * Shdr.entsize m sh : ℤ) ≤ ((symbolCount m sh : ℤ) - 2) * Shdr.entsize m sh :=
        mul_le_mul_of_nonneg_right (by omega) (Int.natCast_nonneg _)
      omega
    · have hlt := (htest _ le_rfl).1 hin
      rw [Nat.cast_sub (by omega), Nat.cast_one] at hlt
      omega

/-- **Without it** a walk through the table looks at other entries. -/
theorem roundsFit_of_through {α β : Type} {visit : ℕ → α → α ⊕ β} {fuel : ℕ} {acc acc' : α}
    (h : walkTable (sectionAt m symtab sh) visit fuel ((sectionAt m symtab sh).entry 0) acc =
      some (symbols m symtab sh, .inl acc')) : RoundsFit m sh := by
  obtain ⟨hseen, hin, hend⟩ := walkTable_through h
  have hlength : (symbols m symtab sh).length = symbolCount m sh - 1 := by
    rw [symbols, List.length_map, List.length_range']
  rw [hlength] at hseen hin hend
  rw [Nat.zero_add] at hend
  rcases Nat.lt_or_ge (symbolCount m sh) 2 with hone | htwo
  · refine Or.inl ⟨?_, by omega⟩
    have hzero : symbolCount m sh - 1 = 0 := by omega
    rw [hzero, Section.inTable_iff (by simp), Nat.cast_zero, zero_mul] at hend
    exact not_lt.1 hend
  · have hpos : 0 < Shdr.entsize m sh := Nat.pos_of_ne_zero fun hz => by
      rw [symbolCount, hz, Nat.div_zero] at htwo
      omega
    have hfits : symbolCount m sh * Shdr.entsize m sh ≤ Shdr.size m sh := Nat.div_mul_le_self _ _
    have hsize : Shdr.size m sh < 2 ^ 64 := num_lt m _ 8
    -- the first entry that is looked at gives the size of the entries
    have hentsize : Shdr.entsize m sh < 2 ^ 31 := by
      have hfirst : (sectionAt m symtab sh).entry 1 = symbolAt m symtab sh 1 := by
        have hget := congrArg (fun l => l[0]?) hseen
        obtain ⟨r, hr⟩ : ∃ r, symbolCount m sh - 1 = r + 1 := ⟨symbolCount m sh - 2, by omega⟩
        rw [symbols, hr, List.range'_succ] at hget
        exact (Option.some.inj hget).symm
      have hdouble := Nat.mul_le_mul_right (Shdr.entsize m sh) htwo
      obtain ⟨hlow, hhigh⟩ := toInt_bounds (Shdr.entsize m sh)
      rw [Section.entry, sectionAt, symbolAt] at hfirst
      dsimp only at hfirst
      rw [← toInt_eq_iff]
      omega
    have hint : (sectionAt m symtab sh).entsize = Shdr.entsize m sh := toInt_eq_iff.2 hentsize
    have hzero := hin 0 le_rfl (by omega)
    rw [Section.inTable_iff (by simp), Nat.cast_zero, zero_mul] at hzero
    have hrest : (symbolCount m sh - 1) * Shdr.entsize m sh < 2 ^ 64 :=
      (Nat.mul_le_mul_right _ (Nat.sub_le _ 1)).trans_lt (hfits.trans_lt hsize)
    -- the offset of the last one is no negative number
    have hlast : (symbolCount m sh - 1) * Shdr.entsize m sh < 2 ^ 63 := by
      by_contra hge
      refine hend ?_
      rw [Section.inTable, ptrDiff_entry, hint, ← Nat.cast_mul, Int.bmod]
      omega
    have hbefore := hin (symbolCount m sh - 2) (Nat.zero_le _) (by omega)
    have hshorter : (symbolCount m sh - 2) * Shdr.entsize m sh ≤
        (symbolCount m sh - 1) * Shdr.entsize m sh := Nat.mul_le_mul_right _ (by omega)
    rw [Section.inTable_iff (by rw [hint, ← Nat.cast_mul]; omega), hint,
      Nat.cast_sub htwo] at hbefore
    rw [Section.inTable_iff (by rw [hint, ← Nat.cast_mul]; omega), hint,
      Nat.cast_sub (by omega)] at hend
    exact Or.inr ⟨htwo, hentsize, hbefore, not_lt.1 hend⟩

/-! ### The text range -/

/-- What a round of `symtab_find_text_range` makes of `s` and `e`. -/
def widen (m : Mem) (range : ℕ × ℕ) (a : ℕ) : ℕ × ℕ :=
  if Sym.wanted m a then
    (min range.1 (Sym.value m a), max range.2 ((Sym.value m a + Sym.size m a) % 2 ^ 64))
  else range

/-- A round of the search widens the range. -/
theorem visitRange_eq (m : Mem) (a : ℕ) (range : ℕ × ℕ) :
    visitRange m a range = .inl (widen m range a) := by
  unfold visitRange widen
  split
  · rfl
  · rfl

/-- The starts, and the ends as the loop has them. -/
def starts (m : Mem) (l : List ℕ) : Set ℕ := {v | ∃ a ∈ l, Sym.wanted m a ∧ v = Sym.value m a}

/-- The ends of the text symbols, as 64-bit sums. -/
def wrappedEnds (m : Mem) (l : List ℕ) : Set ℕ :=
  {v | ∃ a ∈ l, Sym.wanted m a ∧ v = (Sym.value m a + Sym.size m a) % 2 ^ 64}

/-- **Widening symbol by symbol** gives the least start and the greatest end, the range's own
among them. -/
theorem foldl_widen (m : Mem) (l : List ℕ) (range : ℕ × ℕ) :
    IsLeast (insert range.1 (starts m l)) (l.foldl (widen m) range).1 ∧
      IsGreatest (insert range.2 (wrappedEnds m l)) (l.foldl (widen m) range).2 := by
  induction l using List.reverseRecOn with
  | nil =>
    have hstarts : starts m [] = ∅ := by ext; simp [starts]
    have hends : wrappedEnds m [] = ∅ := by ext; simp [wrappedEnds]
    rw [hstarts, hends]
    exact ⟨by simp, by simp⟩
  | append_singleton l a ih =>
    rw [List.foldl_append, List.foldl_cons, List.foldl_nil, widen]
    by_cases hwanted : Sym.wanted m a = true
    · have hstarts : starts m (l ++ [a]) = insert (Sym.value m a) (starts m l) := by
        ext v
        simp [starts, or_and_right, exists_or, hwanted, or_comm]
      have hends : wrappedEnds m (l ++ [a]) =
          insert ((Sym.value m a + Sym.size m a) % 2 ^ 64) (wrappedEnds m l) := by
        ext v
        simp [wrappedEnds, or_and_right, exists_or, hwanted, or_comm]
      rw [if_pos hwanted, hstarts, hends, Set.insert_comm, Set.insert_comm range.2, min_comm,
        max_comm]
      exact ⟨ih.1.insert _, ih.2.insert _⟩
    · have hstarts : starts m (l ++ [a]) = starts m l := by
        ext v
        simp [starts, or_and_right, exists_or, hwanted]
      have hends : wrappedEnds m (l ++ [a]) = wrappedEnds m l := by
        ext v
        simp [wrappedEnds, or_and_right, exists_or, hwanted]
      rwa [if_neg hwanted, hstarts, hends]

/-- The least of a set and a bound above it is the least of the set. -/
theorem isLeast_of_insert {s : Set ℕ} {t r : ℕ} (h : IsLeast (insert t s) r) (hne : s.Nonempty)
    (ht : ∀ v ∈ s, v ≤ t) : IsLeast s r := by
  refine ⟨?_, fun v hv => h.2 (Set.mem_insert_of_mem _ hv)⟩
  rcases h.1 with rfl | hr
  · obtain ⟨v, hv⟩ := hne
    rwa [← le_antisymm (ht v hv) (h.2 (Set.mem_insert_of_mem _ hv))]
  · exact hr

/-- The greatest of a set and a bound below it is the greatest of the set. -/
theorem isGreatest_of_insert {s : Set ℕ} {t r : ℕ} (h : IsGreatest (insert t s) r)
    (hne : s.Nonempty) (ht : ∀ v ∈ s, t ≤ v) : IsGreatest s r := by
  refine ⟨?_, fun v hv => h.2 (Set.mem_insert_of_mem _ hv)⟩
  rcases h.1 with rfl | hr
  · obtain ⟨v, hv⟩ := hne
    rwa [le_antisymm (ht v hv) (h.2 (Set.mem_insert_of_mem _ hv))]
  · exact hr

/-- What the loop leaves in `s` and `e` for these entries. -/
def textRange (m : Mem) (l : List ℕ) : ℕ × ℕ := l.foldl (widen m) (2 ^ 64 - 1, 0)

/-- **The least start and the greatest end** are found exactly if no end is beyond 2^64. -/
theorem textRange_iff (m : Mem) (l : List ℕ) :
    ((∃ a ∈ l, Sym.wanted m a) → IsLeast {v | ∃ a ∈ l, Sym.wanted m a ∧ v = Sym.value m a}
        (textRange m l).1 ∧
      IsGreatest {v | ∃ a ∈ l, Sym.wanted m a ∧ v = Sym.value m a + Sym.size m a}
        (textRange m l).2) ↔
      ∀ a ∈ l, Sym.wanted m a → Sym.value m a + Sym.size m a < 2 ^ 64 := by
  obtain ⟨hleast, hgreatest⟩ := foldl_widen m l (2 ^ 64 - 1, 0)
  constructor
  · intro h a ha hwanted
    have hbelow : (textRange m l).2 < 2 ^ 64 := by
      rcases hgreatest.1 with hzero | ⟨b, -, -, hb⟩
      · exact hzero ▸ (by decide : (0 : ℕ) < 2 ^ 64)
      · exact hb ▸ Nat.mod_lt _ (by decide)
    exact ((h ⟨a, ha, hwanted⟩).2.2 ⟨a, ha, hwanted, rfl⟩).trans_lt hbelow
  · rintro hends ⟨a, ha, hwanted⟩
    have hsame : {v | ∃ a ∈ l, Sym.wanted m a ∧ v = Sym.value m a + Sym.size m a} =
        wrappedEnds m l := by
      ext v
      refine exists_congr fun b => and_congr_right fun hb => and_congr_right fun hw => ?_
      rw [Nat.mod_eq_of_lt (hends b hb hw)]
    rw [hsame]
    refine ⟨isLeast_of_insert hleast ⟨_, a, ha, hwanted, rfl⟩ ?_,
      isGreatest_of_insert hgreatest ⟨_, a, ha, hwanted, rfl⟩ fun v _ => Nat.zero_le v⟩
    rintro v ⟨b, -, -, rfl⟩
    exact Nat.le_pred_of_lt (num_lt m _ 8)

/-- An `int` keeps the lower half. -/
theorem toInt_emod (n : ℕ) : toInt n % 2 ^ 32 = n % 2 ^ 32 := by
  rw [toInt, BitVec.toInt_ofNat', Int.bmod]
  omega

/-- The entries that are looked at end in the section: with more than one of them
`sh_size` is too large for an `int`, and so the entries are large. -/
theorem RoundsFit.inside (h : RoundsFit m sh) {k : ℕ} (hlt : k < symbolCount m sh) (hk : 1 ≤ k) :
    k * Shdr.entsize m sh + 24 ≤ Shdr.size m sh := by
  rcases h with ⟨-, hone⟩ | ⟨htwo, hentsize, hlow, hhigh⟩
  · omega
  · have hfits : symbolCount m sh * Shdr.entsize m sh ≤ Shdr.size m sh := Nat.div_mul_le_self _ _
    have hover : Shdr.size m sh < symbolCount m sh * Shdr.entsize m sh + Shdr.entsize m sh := by
      have hpos : 0 < Shdr.entsize m sh := Nat.pos_of_ne_zero fun hz => by
        rw [symbolCount, hz, Nat.div_zero] at htwo
        omega
      have hdiv := Nat.lt_div_mul_add (a := Shdr.size m sh) hpos
      exact hdiv
    have hnext : (k + 1) * Shdr.entsize m sh ≤ symbolCount m sh * Shdr.entsize m sh :=
      Nat.mul_le_mul_right _ hlt
    have hlast : ((symbolCount m sh : ℤ) - 1) * Shdr.entsize m sh =
        (symbolCount m sh * Shdr.entsize m sh : ℕ) - Shdr.entsize m sh := by push_cast; ring
    have hlast' : ((symbolCount m sh : ℤ) - 2) * Shdr.entsize m sh =
        (symbolCount m sh * Shdr.entsize m sh : ℕ) - 2 * Shdr.entsize m sh := by push_cast; ring
    have hmod := toInt_emod (Shdr.size m sh)
    rw [Nat.add_mul, Nat.one_mul] at hnext
    rw [hlast] at hhigh
    rw [hlast'] at hlow
    omega

/-- The walk over a section with `RoundsFit`. -/
theorem RoundsFit.walk {α β : Type} {visit : ℕ → α → α ⊕ β} {f : α → ℕ → α}
    (h : RoundsFit m sh)
    (hvisit : ∀ a ∈ symbols m symtab sh, ∀ acc, visit a acc = .inl (f acc a)) (acc : α) :
    walkTable (sectionAt m symtab sh) visit (symbolCount m sh - 1 + 1)
      ((sectionAt m symtab sh).entry 0) acc =
        some (symbols m symtab sh, .inl ((symbols m symtab sh).foldl f acc)) := by
  obtain ⟨hin, hend, hentry⟩ := h.rounds symtab
  have hsymbols : (List.range' (0 + 1) (symbolCount m sh - 1)).map (sectionAt m symtab sh).entry =
      symbols m symtab sh := by
    refine List.map_congr_left fun k hk => ?_
    rw [List.mem_range'_1] at hk
    exact hentry k (by omega) (by omega)
  rw [walkTable_done (f := f) (fun j _ hj => hin j (by omega)) (by rwa [Nat.zero_add])
    fun j hj hle acc => ?_, hsymbols]
  rw [Nat.zero_add] at hle
  rw [hentry j hj hle]
  exact hvisit _ (List.mem_map.2 ⟨j, List.mem_range'_1.2 ⟨by omega, by omega⟩, rfl⟩) acc

/-- Where the rounds fit the table, the search ends with the range of all symbols. -/
theorem RoundsFit.walk_range (h : RoundsFit m sh) :
    walkTable (sectionAt m symtab sh) (visitRange m) (symbolCount m sh - 1 + 1)
      ((sectionAt m symtab sh).entry 0) (2 ^ 64 - 1, 0) =
        some (symbols m symtab sh, .inl (textRange m (symbols m symtab sh))) := by
  rw [h.walk fun a _ range => visitRange_eq m a range, textRange]

/-- **Exactly when `symtab_find_text_range` is right.** -/
theorem rangeMeets_iff (h : symbolHeader m symtab = some sh) : RangeMeets m symtab sh ↔
    (sectionAt m symtab sh).table ≠ 0 ∧ RoundsFit m sh ∧
      ∀ a ∈ symbols m symtab sh, Sym.wanted m a → Sym.value m a + Sym.size m a < 2 ^ 64 := by
  constructor
  · rintro ⟨-, fuel, start, stop, hrun, hbest⟩
    have htable : (sectionAt m symtab sh).table ≠ 0 := fun hnull => by
      rw [findTextRange_null h hnull] at hrun
      exact nomatch congrArg Prod.snd (Option.some.inj hrun)
    rw [findTextRange_eq h htable] at hrun
    obtain ⟨⟨seen, r⟩, hwalk, heq⟩ := Option.map_eq_some_iff.1 hrun
    obtain ⟨rfl, hr⟩ := Prod.mk.inj heq
    cases r with
    | inr r => exact r.elim
    | inl range =>
      have hfits := roundsFit_of_through hwalk
      have hresult := Option.some.inj hr
      have hsame := congrArg Prod.snd (walkTable_unique hwalk hfits.walk_range)
      rw [Sum.inl.inj hsame] at hresult
      rw [← show (textRange m (symbols m symtab sh)).1 = start from congrArg Prod.fst hresult,
        ← show (textRange m (symbols m symtab sh)).2 = stop from congrArg Prod.snd hresult] at hbest
      exact ⟨htable, hfits, (textRange_iff m _).1 hbest⟩
  · rintro ⟨htable, hfits, hends⟩
    refine ⟨fun k hk hlt => hfits.inside hlt hk, symbolCount m sh - 1 + 1, _, _, ?_,
      (textRange_iff m _).2 hends⟩
    rw [findTextRange_eq h htable, hfits.walk_range]
    rfl

/-! ### The lookup -/

/-- A round of `symtab_lookup`, for a symbol that ends below 2^64. -/
theorem visitLookup_eq (strtab : Section) {a : ℕ}
    (hend : Sym.wanted m a → Sym.value m a + Sym.size m a < 2 ^ 64) (acc : Unit) :
    visitLookup m strtab addr a acc =
      if Sym.contains m a addr then
        .inr (if (strtab.size % 2 ^ 32).toNat < Sym.name m a then none
          else some ((strtab.table + Sym.name m a) % 2 ^ 64, addr - Sym.value m a))
      else .inl () := by
  rw [visitLookup, Sym.contains]
  by_cases hwanted : Sym.wanted m a = true
  · rw [if_neg (not_not.2 hwanted), Nat.mod_eq_of_lt (hend hwanted)]
    by_cases hlow : addr < Sym.value m a
    · rw [if_pos hlow, if_neg (by simp [hwanted, hlow])]
    · by_cases hhigh : Sym.value m a + Sym.size m a ≤ addr
      · have hout : ¬ addr < Sym.value m a + Sym.size m a := by omega
        rw [if_neg hlow, if_pos hhigh, if_neg (by simp [hout])]
      · rw [if_neg hlow, if_neg hhigh,
          if_pos (decide_eq_true ⟨hwanted, not_lt.1 hlow, not_le.1 hhigh⟩)]
        by_cases hname : (strtab.size % 2 ^ 32).toNat < Sym.name m a
        · rw [if_pos hname, if_pos hname]
        · rw [if_neg hname, if_neg hname]
  · rw [if_pos hwanted, if_neg (by simp [hwanted])]

/-- The result of `symtab_lookup` for the symbol at `a`. -/
def lookupResult (m : Mem) (strtab : Section) (a addr : ℕ) : Option (ℕ × ℕ) :=
  if (strtab.size % 2 ^ 32).toNat < Sym.name m a then none
  else some ((strtab.table + Sym.name m a) % 2 ^ 64, addr - Sym.value m a)

/-- **The lookup,** with the string table. -/
theorem lookup_result (h : symbolHeader m symtab = some sh)
    (htable : (sectionAt m symtab sh).table ≠ 0) (hfits : RoundsFit m sh)
    (hends : ∀ a ∈ symbols m symtab sh, Sym.wanted m a → Sym.value m a + Sym.size m a < 2 ^ 64)
    (hstrings : (sectionAt m symtab (stringHeader m symtab sh)).table ≠ 0) (addr : ℕ) :
    ∃ fuel, symtabLookup fuel m symtab addr = some (
      match firstSymbol m symtab sh addr with
      | some k => ((List.range' 1 k).map (symbolAt m symtab sh),
          lookupResult m (sectionAt m symtab (stringHeader m symtab sh)) (symbolAt m symtab sh k)
            addr)
      | none => (symbols m symtab sh, none)) := by
  obtain ⟨hin, -, hentry⟩ := hfits.rounds symtab
  cases hfirst : firstSymbol m symtab sh addr with
  | none =>
    refine ⟨symbolCount m sh - 1 + 1, ?_⟩
    have hnone : ∀ a ∈ symbols m symtab sh, Sym.contains m a addr = false := by
      intro a ha
      obtain ⟨k, hk, rfl⟩ := List.mem_map.1 ha
      exact Bool.eq_false_iff.2 (List.find?_eq_none.1 hfirst k hk)
    rw [lookup_eq h htable hstrings, hfits.walk (f := fun _ _ => ()) fun a ha acc => by
      rw [visitLookup_eq _ (hends a ha), if_neg (Bool.eq_false_iff.1 (hnone a ha))]]
    rfl
  | some k =>
    obtain ⟨hcontains, hmem, hbefore⟩ := List.find?_range'_eq_some.1 hfirst
    rw [List.mem_range'_1] at hmem
    obtain ⟨k, rfl⟩ : ∃ n, k = n + 1 := ⟨k - 1, by omega⟩
    have hsymbol : ∀ j, 1 ≤ j → j ≤ k + 1 → symbolAt m symtab sh j ∈ symbols m symtab sh :=
      fun j hj hle => List.mem_map.2 ⟨j, List.mem_range'_1.2 ⟨hj, by omega⟩, rfl⟩
    refine ⟨k + 1, ?_⟩
    have hseen : (List.range' (0 + 1) (k + 1)).map (sectionAt m symtab sh).entry =
        (List.range' 1 (k + 1)).map (symbolAt m symtab sh) := by
      refine List.map_congr_left fun j hj => ?_
      rw [List.mem_range'_1] at hj
      exact hentry j (by omega) (by omega)
    rw [lookup_eq h htable hstrings, walkTable_found (f := fun _ _ => ())
      (b := lookupResult m (sectionAt m symtab (stringHeader m symtab sh))
        (symbolAt m symtab sh (k + 1)) addr) (fun j _ hj => hin j (by omega))
      (fun j hj hlt acc => ?_) fun acc => ?_, hseen]
    · rfl
    · rw [hentry j (by omega) (by omega), visitLookup_eq _ (hends _ (hsymbol j hj (by omega))),
        if_neg (by simpa using hbefore j hj (by omega))]
    · rw [Nat.zero_add, hentry (k + 1) (by omega) (by omega),
        visitLookup_eq _ (hends _ (hsymbol (k + 1) (by omega) le_rfl)), if_pos hcontains]
      rfl

/-- **Exactly when `symtab_lookup` is right,** where the other scan is. -/
theorem lookupMeets_iff (h : symbolHeader m symtab = some sh)
    (htable : (sectionAt m symtab sh).table ≠ 0) (hfits : RoundsFit m sh)
    (hends : ∀ a ∈ symbols m symtab sh, Sym.wanted m a → Sym.value m a + Sym.size m a < 2 ^ 64) :
    LookupMeets m symtab sh addr ↔
      ((sectionAt m symtab (stringHeader m symtab sh)).table ≠ 0 ∨ symbolCount m sh ≤ 1) ∧
        ∀ k, firstSymbol m symtab sh addr = some k → Sym.name m (symbolAt m symtab sh k) ≤
          Shdr.size m (stringHeader m symtab sh) % 2 ^ 32 := by
  by_cases hstrings : (sectionAt m symtab (stringHeader m symtab sh)).table = 0
  · -- nothing is looked at, so there is to be nothing to look at
    have hnone : symbolCount m sh ≤ 1 → firstSymbol m symtab sh addr = none := fun hone => by
      rw [firstSymbol, Nat.sub_eq_zero_of_le hone]
      rfl
    constructor
    · rintro ⟨fuel, hrun⟩
      rw [lookup_null h (Or.inr hstrings)] at hrun
      cases hfirst : firstSymbol m symtab sh addr with
      | some k =>
        rw [hfirst] at hrun
        exact nomatch congrArg Prod.snd (Option.some.inj hrun)
      | none =>
        rw [hfirst] at hrun
        have hlength := congrArg (fun r => r.1.length) (Option.some.inj hrun)
        simp only [symbols, List.length_nil, List.length_map, List.length_range'] at hlength
        exact ⟨Or.inr (by omega), nofun⟩
    · rintro ⟨hone, -⟩
      have hone := hone.resolve_left (not_not.2 hstrings)
      refine ⟨0, ?_⟩
      rw [lookup_null h (Or.inr hstrings), hnone hone, symbols, Nat.sub_eq_zero_of_le hone]
      rfl
  · obtain ⟨fuel, hrun⟩ := lookup_result h htable hfits hends hstrings addr
    have hsize : ((sectionAt m symtab (stringHeader m symtab sh)).size % 2 ^ 32).toNat =
        Shdr.size m (stringHeader m symtab sh) % 2 ^ 32 := by
      rw [sectionAt, toInt_emod]
      exact Int.toNat_natCast _
    cases hfirst : firstSymbol m symtab sh addr with
    | none =>
      rw [hfirst] at hrun
      refine iff_of_true ⟨fuel, ?_⟩ ⟨Or.inl hstrings, nofun⟩
      rw [hfirst]
      exact hrun
    | some k =>
      rw [hfirst] at hrun
      have hname : lookupResult m (sectionAt m symtab (stringHeader m symtab sh))
          (symbolAt m symtab sh k) addr =
            some (((sectionAt m symtab (stringHeader m symtab sh)).table +
              Sym.name m (symbolAt m symtab sh k)) % 2 ^ 64,
              addr - Sym.value m (symbolAt m symtab sh k)) ↔
          Sym.name m (symbolAt m symtab sh k) ≤
            Shdr.size m (stringHeader m symtab sh) % 2 ^ 32 := by
        rw [lookupResult, hsize]
        by_cases hlong : Shdr.size m (stringHeader m symtab sh) % 2 ^ 32 <
            Sym.name m (symbolAt m symtab sh k)
        · rw [if_pos hlong]
          exact iff_of_false nofun (not_le.2 hlong)
        · rw [if_neg hlong]
          exact iff_of_true rfl (not_lt.1 hlong)
      constructor
      · rintro ⟨fuel', hrun'⟩
        rw [hfirst] at hrun'
        refine ⟨Or.inl hstrings, fun k' hk' => ?_⟩
        obtain rfl := Option.some.inj hk'
        exact hname.1 (congrArg Prod.snd (symtabLookup_unique hrun hrun'))
      · rintro ⟨-, hfit⟩
        refine ⟨fuel, ?_⟩
        rw [hfirst, hrun]
        dsimp only
        rw [hname.2 (hfit k rfl)]

/-- **Exactly when both scans are right:** the tables are not at address 0, and the number
of symbols is what the loops' signed tests make of the table's size. The cursor moves on
before the test, so one entry more is looked at, unless the size is past an `int`. -/
theorem scanMeets_iff (m : Mem) (symtab sh addr : ℕ) (h : symbolHeader m symtab = some sh) :
    ScanMeets m symtab sh addr ↔ ScanFits m symtab sh addr := by
  constructor
  · rintro ⟨hrange, hlookup⟩
    obtain ⟨htable, hfits, hends⟩ := (rangeMeets_iff h).1 hrange
    obtain ⟨hstrings, hname⟩ := (lookupMeets_iff h htable hfits hends).1 hlookup
    exact ⟨htable, hfits, hends, hstrings, hname⟩
  · rintro ⟨htable, hfits, hends, hstrings, hname⟩
    exact ⟨(rangeMeets_iff h).2 ⟨htable, hfits, hends⟩,
      (lookupMeets_iff h htable hfits hends).2 ⟨hstrings, hname⟩⟩

/-- An image at 8192 with a symbol table of `size` bytes in entries of 24, all of them
zero, and its strings. -/
def symbolImage (size : UInt8) : Mem := fun a =>
  ((([(47, 64), (59, 64), (61, 2), (71, 2), (95, 192), (103, size), (107, 1), (127, 24),
    (158, 1), (167, 16)] : List (ℕ × UInt8)).lookup (a - 8192)).getD 0)

/-- An image at 8192 with a symbol table of three entries of 1.5GB and 16 bytes more, of
which the `int` is those of two entries, and its strings: a function of 0x100 bytes at 0x1000
and one of 0x80 bytes at 0x1100, whose name is at 8 in the strings. -/
def wideImage : Mem := fun a =>
  ((([(47, 64), (59, 64), (61, 2), (71, 2), (95, 192), (99, 1), (100, 0x60), (103, 16), (107, 1),
    (124, 0x60), (158, 1), (167, 16), (192 + 0x60000000 + 4, 2), (192 + 0x60000000 + 14, 0x10),
    (192 + 0x60000000 + 22, 1), (192 + 0xc0000000 + 3, 8), (192 + 0xc0000000 + 4, 2),
    (192 + 0xc0000000 + 14, 0x11), (192 + 0xc0000000 + 23, 0x80)] :
    List (ℕ × UInt8)).lookup (a - 8192)).getD 0)

/-- **A table of three entries:** both of its symbols are looked at, and the address is
found in the second. -/
theorem scanMeets_iff_three : ScanMeets wideImage 8192 8256 0x1104 ∧
    symbolCount wideImage 8256 = 3 ∧ firstSymbol wideImage 8192 8256 0x1104 = some 2 := by
  have hfirst : firstSymbol wideImage 8192 8256 0x1104 = some 2 := by decide +kernel
  refine ⟨(scanMeets_iff wideImage 8192 8256 0x1104 (by decide +kernel)).2 ?_, by decide +kernel,
    hfirst⟩
  constructor
  case table => decide +kernel
  case rounds => exact Or.inr (by decide +kernel)
  case ends => decide +kernel
  case strings => exact Or.inl (by decide +kernel)
  case name =>
    intro k hk
    obtain rfl := Option.some.inj (hfirst.symm.trans hk)
    decide +kernel

/-- In a table of the null symbol and another one, a third one is looked at, which is not in
the table. -/
theorem not_scanMeets : ¬ ∀ (m : Mem) (symtab sh addr : ℕ), symbolHeader m symtab = some sh →
    ScanMeets m symtab sh addr := by
  intro h
  have hmeets := (h (symbolImage 48) 8192 8256 0 (by decide +kernel)).1
  have hfits := ((rangeMeets_iff (by decide +kernel)).1 hmeets).2.1
  rcases hfits with ⟨hempty, -⟩ | ⟨-, -, -, hhigh⟩
  · exact absurd hempty (by decide +kernel)
  · exact absurd hhigh (by decide +kernel)

end Hvf
