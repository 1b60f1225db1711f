/-
# The symbol image

What `load_nucleus` leaves at `SYMTAB_BASE` is a small ELF file: the headers of the
null section, the symbol tables and the string tables, in the order of the file,
and behind them the tables.  `copiedBelow m i` are the headers that are copied among
the first `i`; header `p` of the image is at `SYMTAB_BASE + headersLen + shentsize * p`
and its table at `SYMTAB_BASE + tableStart p`.

Each loop has its invariant: `HeadersCopied` for the headers, `HeadersLinked` for
`sh_link`, `TablesPlaced` for the tables.  They name the file as it was, which stays
where it is as the image ends before `TEMP_BASE` (`HoldsFile`).

`get_section` returns `int`s, so it is a slip away from the file where an
`sh_entsize` is no `int` (`loadNucleus_faithful_iff`); the sizes are `int`s since the
image has room for the tables.
-/

import Hvf.Loader.Symtab

namespace Hvf

open Bytes ForLoop

/-! ### The file -/

/-- The headers that are copied among the first `i`. -/
def copiedBelow (m : Mem) (i : ℕ) : List ℕ :=
  (List.range i).filter fun j => isCopied (Shdr.type m (shdrAt m tempBase j))

/-- The headers that are copied. -/
def copiedHeaders (m : Mem) : List ℕ := copiedBelow m (Ehdr.shnum m tempBase)

/-- The length of the ELF header and the program headers. -/
def headersLen (m : Mem) : ℕ :=
  Ehdr.ehsize m tempBase + Ehdr.phentsize m tempBase * Ehdr.phnum m tempBase

/-- Where table `p` begins in the image; the null section, which is the first, has none. -/
def tableStart (m : Mem) : ℕ → ℕ
  | 0 => headersLen m + Ehdr.shentsize m tempBase * (copiedHeaders m).length
  | 0 + 1 => headersLen m + Ehdr.shentsize m tempBase * (copiedHeaders m).length
  | p + 2 => tableStart m (p + 1) +
      ((copiedHeaders m)[p + 1]?.elim 0 fun j => Shdr.size m (shdrAt m tempBase j))

/-- A nucleus of `n` bytes at `TEMP_BASE`: the headers have the size that ELF64 has
for them, what they name is in the file, and the image that is built of it ends before
the file.  The sections are as the linker leaves them. -/
structure NucleusImage (m : Mem) (n : ℕ) : Prop where
  small : n < 2 ^ 31
  ehsize : 64 ≤ Ehdr.ehsize m tempBase
  shentsize : 64 ≤ Ehdr.shentsize m tempBase
  ehdr : Ehdr.ehsize m tempBase ≤ n
  phdrs : Ehdr.phoff m tempBase + Ehdr.phentsize m tempBase * Ehdr.phnum m tempBase ≤ n
  shdrs : Ehdr.shoff m tempBase + Ehdr.shentsize m tempBase * Ehdr.shnum m tempBase ≤ n
  tables : ∀ i < Ehdr.shnum m tempBase, Shdr.type m (shdrAt m tempBase i) = shtSymtab ∨
    Shdr.type m (shdrAt m tempBase i) = shtStrtab →
    Shdr.offset m (shdrAt m tempBase i) + Shdr.size m (shdrAt m tempBase i) ≤ n
  first : 0 < Ehdr.shnum m tempBase ∧ Shdr.type m (shdrAt m tempBase 0) = shtNull
  null : ∀ i < Ehdr.shnum m tempBase, Shdr.type m (shdrAt m tempBase i) = shtNull → i = 0
  links : ∀ i < Ehdr.shnum m tempBase, Shdr.type m (shdrAt m tempBase i) = shtSymtab →
    Shdr.link m (shdrAt m tempBase i) < Ehdr.shnum m tempBase ∧
      Shdr.type m (shdrAt m tempBase (Shdr.link m (shdrAt m tempBase i))) = shtStrtab
  flat : ∀ i < Ehdr.shnum m tempBase, Shdr.type m (shdrAt m tempBase i) = shtNull ∨
    Shdr.type m (shdrAt m tempBase i) = shtStrtab → Shdr.link m (shdrAt m tempBase i) = 0
  distinct : ∀ i ∈ copiedHeaders m, ∀ j ∈ copiedHeaders m, i ≠ j →
    ∃ k < Ehdr.shentsize m tempBase, m (shdrAt m tempBase i + k) ≠ m (shdrAt m tempBase j + k)
  room : symtabBase + tableStart m (copiedHeaders m).length ≤ tempBase

/-- The file is still at `TEMP_BASE`. -/
def HoldsFile (m : Mem) (n : ℕ) (m' : Mem) : Prop :=
  ∀ a, tempBase ≤ a → a < tempBase + n → m' a = m a

section File

variable {m m' m'' : Mem} {n i : ℕ}

/-- The sections copied so far, and the next one if it is of a kind that is copied. -/
theorem copiedBelow_succ (m : Mem) (i : ℕ) : copiedBelow m (i + 1) =
    if isCopied (Shdr.type m (shdrAt m tempBase i)) then copiedBelow m i ++ [i]
    else copiedBelow m i := by
  rw [copiedBelow, List.range_succ, List.filter_append, List.filter_singleton, Bool.cond_eq_ite]
  split
  · rfl
  · exact List.append_nil _

/-- At most as many sections are copied as looked at. -/
theorem length_copiedBelow_le (m : Mem) (i : ℕ) : (copiedBelow m i).length ≤ i :=
  (List.length_filter_le _ _).trans List.length_range.le

/-- Looking at more sections copies no fewer. -/
theorem length_copiedBelow_mono (m : Mem) {i j : ℕ} (h : i ≤ j) :
    (copiedBelow m i).length ≤ (copiedBelow m j).length := by
  induction j, h using Nat.le_induction with
  | base => exact le_rfl
  | succ j _ ih =>
    rw [copiedBelow_succ]
    split
    · rw [List.length_append]
      omega
    · exact ih

/-- A section is copied exactly when it is one of the file's and of such a kind. -/
theorem mem_copiedHeaders {j : ℕ} : j ∈ copiedHeaders m ↔
    j < Ehdr.shnum m tempBase ∧ isCopied (Shdr.type m (shdrAt m tempBase j)) = true := by
  rw [copiedHeaders, copiedBelow, List.mem_filter, List.mem_range]

/-- Later tables begin later. -/
theorem tableStart_le (m : Mem) {p q : ℕ} (h : p ≤ q) : tableStart m p ≤ tableStart m q := by
  induction q, h using Nat.le_induction with
  | base => exact le_rfl
  | succ q _ ih =>
    refine ih.trans ?_
    match q with
    | 0 => exact le_rfl
    | q + 1 => exact Nat.le_add_right _ _

/-- A table begins where the one before it ends. -/
theorem tableStart_succ (m : Mem) {p j : ℕ} (hp : p ≠ 0) (hj : (copiedHeaders m)[p]? = some j) :
    tableStart m (p + 1) = tableStart m p + Shdr.size m (shdrAt m tempBase j) := by
  obtain ⟨q, rfl⟩ := Nat.exists_eq_succ_of_ne_zero hp
  rw [Nat.succ_eq_add_one] at hj ⊢
  rw [tableStart, hj, Option.elim_some]

/-- A section header is where the file says, and within the file. -/
theorem NucleusImage.shdrAt_eq (h : NucleusImage m n) (hi : i < Ehdr.shnum m tempBase) :
    shdrAt m tempBase i = tempBase + Ehdr.shoff m tempBase + Ehdr.shentsize m tempBase * i ∧
      Ehdr.shoff m tempBase + Ehdr.shentsize m tempBase * i + Ehdr.shentsize m tempBase ≤ n := by
  have hle : Ehdr.shentsize m tempBase * (i + 1) ≤
      Ehdr.shentsize m tempBase * Ehdr.shnum m tempBase := Nat.mul_le_mul_left _ hi
  have hshdrs := h.shdrs
  have hsmall := h.small
  rw [Nat.mul_succ] at hle
  refine ⟨Nat.mod_eq_of_lt ?_, by omega⟩
  unfold tempBase at *
  omega

/-- A number within the file is the file's. -/
theorem HoldsFile.num (h : HoldsFile m n m') {a k : ℕ} (ha : tempBase ≤ a)
    (hk : a + k ≤ tempBase + n) : num m' a k = num m a k :=
  num_congr fun _ _ => h _ (by omega) (by omega)

/-- A change before the file leaves it. -/
theorem HoldsFile.change (h : HoldsFile m n m') (hsame : ∀ b, tempBase ≤ b → m'' b = m' b) :
    HoldsFile m n m'' :=
  fun a ha hlt => (hsame a ha).trans (h a ha hlt)

/-- Storing below the file leaves the file. -/
theorem HoldsFile.setNum (h : HoldsFile m n m') {a k v : ℕ} (ha : a + k ≤ tempBase) :
    HoldsFile m n (setNum m' a k v) :=
  h.change fun _ hb => setNum_of_disjoint (by omega)

/-- Copying to below the file leaves the file. -/
theorem HoldsFile.copy (h : HoldsFile m n m') {dst src k : ℕ} (ha : dst + k ≤ tempBase) :
    HoldsFile m n (copy m' dst src k) :=
  h.change fun _ hb => copy_of_disjoint (by omega)

section Fields

variable (h : NucleusImage m n) (hf : HoldsFile m n m')

include h hf

/-- The fields of the ELF header are those of the file. -/
theorem HoldsFile.ehdr {off k : ℕ} (hoff : off + k ≤ 64) :
    Bytes.num m' (tempBase + off) k = Bytes.num m (tempBase + off) k := by
  have := h.ehsize
  have := h.ehdr
  exact hf.num (Nat.le_add_right _ _) (by omega)

/-- The number of sections is the file's. -/
theorem HoldsFile.shnum : Ehdr.shnum m' tempBase = Ehdr.shnum m tempBase := hf.ehdr h (by omega)

/-- The size of a section header is the file's. -/
theorem HoldsFile.shentsize : Ehdr.shentsize m' tempBase = Ehdr.shentsize m tempBase :=
  hf.ehdr h (by omega)

/-- The place of a section header is the file's. -/
theorem HoldsFile.shdrAt (i : ℕ) : shdrAt m' tempBase i = shdrAt m tempBase i := by
  rw [Hvf.shdrAt, Hvf.shdrAt, hf.shentsize h, Ehdr.shoff, Ehdr.shoff, hf.ehdr h (by omega)]

/-- The fields of a section header are those of the file. -/
theorem HoldsFile.shdr (hi : i < Ehdr.shnum m tempBase) {off k : ℕ} (hoff : off + k ≤ 64) :
    Bytes.num m' (Hvf.shdrAt m tempBase i + off) k =
      Bytes.num m (Hvf.shdrAt m tempBase i + off) k := by
  obtain ⟨heq, hend⟩ := h.shdrAt_eq hi
  have := h.shentsize
  exact hf.num (by omega) (by omega)

/-- The kind of a section is the file's. -/
theorem HoldsFile.type (hi : i < Ehdr.shnum m tempBase) :
    Shdr.type m' (Hvf.shdrAt m tempBase i) = Shdr.type m (Hvf.shdrAt m tempBase i) :=
  hf.shdr h hi (by omega)

end Fields

end File

/-! ### The headers -/

/-- The ELF header and the program headers are there and so are the first `i` section
headers that are copied. -/
structure HeadersCopied (m : Mem) (n i : ℕ) (s : SymtabCopy) : Prop where
  file : HoldsFile m n s.mem
  symtab : s.symtab =
    symtabBase + headersLen m + Ehdr.shentsize m tempBase * (copiedBelow m i).length
  shoff : Ehdr.shoff s.mem symtabBase = headersLen m
  shentsize : Ehdr.shentsize s.mem symtabBase = Ehdr.shentsize m tempBase
  shnum : Ehdr.shnum s.mem symtabBase = (copiedBelow m i).length
  headers : ∀ p j, (copiedBelow m i)[p]? = some j → ∀ k < Ehdr.shentsize m tempBase,
    s.mem (symtabBase + headersLen m + Ehdr.shentsize m tempBase * p + k) =
      m (shdrAt m tempBase j + k)

section HeadersCopied

variable {m : Mem} {n i : ℕ} {s : SymtabCopy}

/-- The headers of the image are at least the 64 bytes of the first one. -/
theorem NucleusImage.headersLen_ge (h : NucleusImage m n) : 64 ≤ headersLen m :=
  h.ehsize.trans (Nat.le_add_right _ _)

/-- The headers end before the file. -/
theorem NucleusImage.headers_end (h : NucleusImage m n) (hi : i ≤ Ehdr.shnum m tempBase) :
    symtabBase + headersLen m + Ehdr.shentsize m tempBase * (copiedBelow m i).length
      ≤ tempBase := by
  have hmul := Nat.mul_le_mul_left (Ehdr.shentsize m tempBase) (length_copiedBelow_mono m hi)
  have hstart : headersLen m + Ehdr.shentsize m tempBase * (copiedHeaders m).length ≤
      tableStart m (copiedHeaders m).length := tableStart_le m (Nat.zero_le _)
  have hroom := h.room
  rw [copiedHeaders] at hstart hroom
  omega

/-- The copy of the first headers, store by store. -/
theorem copyEhdr_eq (h : NucleusImage m n) {mem : Mem} (hf : HoldsFile m n mem) :
    copyEhdr mem = ⟨setNum (setNum (copy (setNum (copy mem symtabBase tempBase
      (Ehdr.ehsize m tempBase)) (symtabBase + 32) 8 (Ehdr.ehsize m tempBase))
      (symtabBase + Ehdr.ehsize m tempBase) ((tempBase + Ehdr.phoff m tempBase) % 2 ^ 64)
      (Ehdr.phentsize m tempBase * Ehdr.phnum m tempBase)) (symtabBase + 40) 8 (headersLen m))
      (symtabBase + 60) 2 0, symtabBase + headersLen m⟩ := by
  have hend := h.headers_end (Nat.zero_le _)
  have hge := h.headersLen_ge
  have hle : Ehdr.ehsize m tempBase ≤ headersLen m := Nat.le_add_right _ _
  have hehsize : Ehdr.ehsize mem tempBase = Ehdr.ehsize m tempBase := hf.ehdr h (by omega)
  have h₁ : HoldsFile m n (copy mem symtabBase tempBase (Ehdr.ehsize m tempBase)) :=
    hf.copy (by omega)
  have hehsize₁ : Ehdr.ehsize (copy mem symtabBase tempBase (Ehdr.ehsize m tempBase)) tempBase =
      Ehdr.ehsize m tempBase := h₁.ehdr h (by omega)
  rw [copyEhdr]
  simp only [hehsize, hehsize₁, Nat.add_sub_cancel_left]
  generalize hm : setNum (copy mem symtabBase tempBase (Ehdr.ehsize m tempBase)) (symtabBase + 32) 8
    (Ehdr.ehsize m tempBase) = m'
  have h₂ : HoldsFile m n m' := hm ▸ h₁.setNum (by omega)
  have hphentsize : Ehdr.phentsize m' tempBase = Ehdr.phentsize m tempBase :=
    h₂.ehdr h (by omega)
  have hphnum : Ehdr.phnum m' tempBase = Ehdr.phnum m tempBase := h₂.ehdr h (by omega)
  have hphoff : Ehdr.phoff m' tempBase = Ehdr.phoff m tempBase := h₂.ehdr h (by omega)
  rw [hphentsize, hphnum, hphoff, Nat.add_assoc, Nat.add_sub_cancel_left]
  rfl

/-- Behind it, no section header is copied yet. -/
theorem copyEhdr_copied (h : NucleusImage m n) {mem : Mem} (hf : HoldsFile m n mem) :
    HeadersCopied m n 0 (copyEhdr mem) := by
  have hehsize := h.ehsize
  have hend := h.headers_end (Nat.zero_le _)
  have hge := h.headersLen_ge
  have hlen : headersLen m < 256 ^ 8 := by
    unfold symtabBase tempBase at hend
    omega
  rw [copyEhdr_eq h hf]
  constructor
  case file =>
    rw [headersLen] at hend
    exact ((((hf.copy (by omega)).setNum (by omega)).copy (by omega)).setNum (by omega)).setNum
      (by omega)
  case symtab => rfl
  case shoff =>
    exact (num_setNum_of_disjoint (by omega)).trans (num_setNum _ _ hlen)
  case shentsize =>
    calc num _ (symtabBase + 58) 2 = num (copy mem symtabBase tempBase _) (symtabBase + 58) 2 :=
          (num_setNum_of_disjoint (by omega)).trans ((num_setNum_of_disjoint (by omega)).trans
            ((num_copy_of_disjoint (by omega)).trans (num_setNum_of_disjoint (by omega))))
      _ = Ehdr.shentsize mem tempBase := num_copy_inside (by omega)
      _ = Ehdr.shentsize m tempBase := hf.shentsize h
  case shnum => exact num_setNum _ _ (by decide)
  case headers =>
    intro p j hj
    cases hj

/-- What `copyShdr` does to the storage. -/
theorem copyShdr_mem (h : NucleusImage m n) {s : SymtabCopy} (shdr : ℕ)
    (hfile : HoldsFile m n s.mem) (hend : s.symtab + Ehdr.shentsize m tempBase ≤ tempBase)
    (hbegin : symtabBase + 64 ≤ s.symtab)
    (hcount : Ehdr.shnum s.mem symtabBase + 1 < 65536) :
    HoldsFile m n (copyShdr shdr s).mem ∧
      (copyShdr shdr s).symtab = s.symtab + Ehdr.shentsize m tempBase ∧
      Ehdr.shnum (copyShdr shdr s).mem symtabBase = Ehdr.shnum s.mem symtabBase + 1 ∧
      (∀ k < Ehdr.shentsize m tempBase,
        (copyShdr shdr s).mem (s.symtab + k) = s.mem (shdr + k)) ∧
      ∀ b < s.symtab, b < symtabBase + 60 ∨ symtabBase + 62 ≤ b →
        (copyShdr shdr s).mem b = s.mem b := by
  have hsize : Ehdr.shentsize s.mem tempBase = Ehdr.shentsize m tempBase := hfile.shentsize h
  have hcopy : HoldsFile m n (copy s.mem s.symtab shdr (Ehdr.shentsize s.mem tempBase)) :=
    hfile.copy (by rw [hsize]; exact hend)
  have hset := hcopy.setNum (a := symtabBase + 60) (k := 2)
    (v := Ehdr.shnum (copy s.mem s.symtab shdr (Ehdr.shentsize s.mem tempBase)) symtabBase + 1)
    (by omega)
  have hshnum : Ehdr.shnum (copy s.mem s.symtab shdr (Ehdr.shentsize s.mem tempBase)) symtabBase =
      Ehdr.shnum s.mem symtabBase := num_copy_of_disjoint (by omega)
  refine ⟨hset, congrArg (s.symtab + ·) (hset.shentsize h), ?_, fun k hk => ?_, fun b hb hout => ?_⟩
  · exact (num_setNum _ _ (by rw [hshnum]; exact hcount)).trans (by rw [hshnum])
  · exact (setNum_of_disjoint (by omega)).trans (copy_inside (by rw [hsize]; exact hk))
  · exact (setNum_of_disjoint (by omega)).trans (copy_of_disjoint (by omega))

/-- **One section looked at**: its header is copied if it is of such a kind. -/
theorem HeadersCopied.step (h : NucleusImage m n) (hi : i < Ehdr.shnum m tempBase)
    (hc : HeadersCopied m n i s) : HeadersCopied m n (i + 1) (copySection i s) := by
  have hshdr := hc.file.shdrAt h i
  have htype := hc.file.type h hi
  have hge := h.headersLen_ge
  have hlt : Ehdr.shnum m tempBase < 65536 := num_lt _ _ 2
  have hlen := length_copiedBelow_le m i
  have hend := h.headers_end hi.le
  -- `e_shstrndx` is no field of those
  obtain ⟨mem, hmem, hout⟩ : ∃ mem : Mem, copySection i s =
      (if isCopied (Shdr.type m (shdrAt m tempBase i)) then
        copyShdr (shdrAt m tempBase i) ⟨mem, s.symtab⟩ else ⟨mem, s.symtab⟩) ∧
      ∀ b, b < symtabBase + 62 ∨ symtabBase + 64 ≤ b → mem b = s.mem b := by
    refine ⟨_, by rw [copySection, hshdr, htype], fun b hb => ?_⟩
    split
    · exact setNum_of_disjoint (by omega)
    · rfl
  have hnum : ∀ {a k : ℕ}, a + k ≤ symtabBase + 62 ∨ symtabBase + 64 ≤ a →
      num mem a k = num s.mem a k := fun hak => num_congr fun _ _ => hout _ (by omega)
  have hfile : HoldsFile m n mem := hc.file.change fun b hb => hout b (by omega)
  have hshnum : Ehdr.shnum mem symtabBase = (copiedBelow m i).length :=
    (hnum (by omega)).trans hc.shnum
  rw [hmem]
  by_cases hcopied : isCopied (Shdr.type m (shdrAt m tempBase i)) = true
  · have hbelow : copiedBelow m (i + 1) = copiedBelow m i ++ [i] := by
      rw [copiedBelow_succ, if_pos hcopied]
    have hnext := h.headers_end (Nat.succ_le_of_lt hi)
    rw [hbelow, List.length_append, List.length_singleton, Nat.mul_succ] at hnext
    have hsym := hc.symtab
    obtain ⟨hfile', hsymtab', hshnum', hnew, hold⟩ := copyShdr_mem h
      (s := ⟨mem, s.symtab⟩) (shdrAt m tempBase i) hfile (by dsimp only; omega)
      (by dsimp only; omega) (by dsimp only; omega)
    rw [if_pos hcopied]
    dsimp only at hsymtab' hshnum' hnew hold
    constructor
    case file => exact hfile'
    case symtab =>
      rw [hsymtab', hbelow, List.length_append, List.length_singleton, Nat.mul_succ]
      omega
    case shoff =>
      exact (num_congr fun _ _ => hold _ (by omega) (by omega)).trans
        ((hnum (by omega)).trans hc.shoff)
    case shentsize =>
      exact (num_congr fun _ _ => hold _ (by omega) (by omega)).trans
        ((hnum (by omega)).trans hc.shentsize)
    case shnum => rw [hshnum', hshnum, hbelow, List.length_append, List.length_singleton]
    case headers =>
      intro p j hj k hk
      rw [hbelow] at hj
      rcases lt_or_ge p (copiedBelow m i).length with hp | hp
      · -- a header from before
        rw [List.getElem?_append_left hp] at hj
        have hmul := Nat.mul_le_mul_left (Ehdr.shentsize m tempBase) (Nat.succ_le_of_lt hp)
        rw [Nat.mul_succ] at hmul
        rw [hold _ (by omega) (by omega), hout _ (by omega)]
        exact hc.headers p j hj k hk
      · -- the header that is copied
        rw [List.getElem?_append_right hp] at hj
        obtain ⟨hzero, rfl⟩ : p - (copiedBelow m i).length = 0 ∧ i = j := by
          cases hsub : p - (copiedBelow m i).length with
          | zero =>
            rw [hsub, List.getElem?_cons_zero] at hj
            exact ⟨rfl, Option.some.inj hj⟩
          | succ q =>
            rw [hsub] at hj
            cases hj
        obtain rfl : p = (copiedBelow m i).length := by omega
        obtain ⟨heq, hinside⟩ := h.shdrAt_eq hi
        rw [← hsym, hnew k hk]
        exact hfile _ (by omega) (by omega)
  · have hbelow : copiedBelow m (i + 1) = copiedBelow m i := by
      rw [copiedBelow_succ, if_neg hcopied]
    rw [if_neg hcopied]
    constructor
    case file => exact hfile
    case symtab => rw [hbelow]; exact hc.symtab
    case shoff => exact (hnum (by omega)).trans hc.shoff
    case shentsize => exact (hnum (by omega)).trans hc.shentsize
    case shnum => rw [hbelow]; exact hshnum
    case headers =>
      intro p j hj k hk
      rw [hbelow] at hj
      exact (hout _ (by omega)).trans (hc.headers p j hj k hk)

/-- **All headers are copied.** -/
theorem copySections_copied (h : NucleusImage m n) {mem : Mem} (hf : HoldsFile m n mem) :
    HeadersCopied m n (Ehdr.shnum m tempBase)
      (forUp (fun s => Ehdr.shnum s.mem tempBase) copySection 65536 0 (copyEhdr mem)) := by
  have hlt : Ehdr.shnum m tempBase < 65536 := num_lt _ _ 2
  exact forUp_invariant (fun _ _ hc => hc.file.shnum h) (fun _ _ hi hc => hc.step h hi)
    (copyEhdr_copied h hf) (Nat.zero_le _) (by omega)

end HeadersCopied

/-! ### The links -/

/-- Header `p` of the image. -/
def imageHdr (m : Mem) (p : ℕ) : ℕ :=
  symtabBase + headersLen m + Ehdr.shentsize m tempBase * p

/-- **The links of the first `i` headers are numbers of the image**; those behind are still
the file's. The rest of the headers is copied as it was. -/
structure HeadersLinked (m : Mem) (n i : ℕ) (mem : Mem) : Prop where
  file : HoldsFile m n mem
  shoff : Ehdr.shoff mem symtabBase = headersLen m
  shentsize : Ehdr.shentsize mem symtabBase = Ehdr.shentsize m tempBase
  shnum : Ehdr.shnum mem symtabBase = (copiedHeaders m).length
  bytes : ∀ p j, (copiedHeaders m)[p]? = some j → ∀ k < Ehdr.shentsize m tempBase,
    k < 40 ∨ 44 ≤ k ∨ i ≤ p ∨ Shdr.link m (shdrAt m tempBase j) = 0 →
    mem (imageHdr m p + k) = m (shdrAt m tempBase j + k)
  link : ∀ p j, (copiedHeaders m)[p]? = some j → p < i →
    Shdr.link m (shdrAt m tempBase j) ≠ 0 →
    (copiedHeaders m)[Shdr.link mem (imageHdr m p)]? = some (Shdr.link m (shdrAt m tempBase j))

section HeadersLinked

variable {m mem : Mem} {n i p j : ℕ}

/-- What stands at a place is within the list. -/
theorem lt_length_of_getElem? {l : List ℕ} (hj : l[p]? = some j) : p < l.length :=
  (List.getElem?_eq_some_iff.1 hj).1

/-- A header that stands in the copy is one that is copied. -/
theorem copied_of_getElem? (hj : (copiedHeaders m)[p]? = some j) :
    j < Ehdr.shnum m tempBase ∧ isCopied (Shdr.type m (shdrAt m tempBase j)) = true :=
  mem_copiedHeaders.1 (List.mem_of_getElem? hj)

/-- The headers of the image are behind its ELF header and before the file. -/
theorem NucleusImage.imageHdr_end (h : NucleusImage m n) (hp : p < (copiedHeaders m).length) :
    symtabBase + 64 ≤ imageHdr m p ∧
      imageHdr m p + Ehdr.shentsize m tempBase ≤ symtabBase + headersLen m +
        Ehdr.shentsize m tempBase * (copiedHeaders m).length ∧
      symtabBase + headersLen m + Ehdr.shentsize m tempBase * (copiedHeaders m).length
        ≤ tempBase := by
  have hmul := Nat.mul_le_mul_left (Ehdr.shentsize m tempBase) (Nat.succ_le_of_lt hp)
  have hge := h.headersLen_ge
  have hend := h.headers_end le_rfl
  rw [Nat.mul_succ] at hmul
  rw [← copiedHeaders] at hend
  refine ⟨?_, ?_, hend⟩
  · rw [imageHdr]
    omega
  · rw [imageHdr]
    omega

/-- Two headers of the image are apart. -/
theorem imageHdr_apart {q : ℕ} (hpq : p < q) :
    imageHdr m p + Ehdr.shentsize m tempBase ≤ imageHdr m q := by
  have hmul := Nat.mul_le_mul_left (Ehdr.shentsize m tempBase) (Nat.succ_le_of_lt hpq)
  rw [Nat.mul_succ] at hmul
  rw [imageHdr, imageHdr]
  omega

/-- `shdrAt` in the image. -/
theorem NucleusImage.shdrAt_image (h : NucleusImage m n) (hp : p < (copiedHeaders m).length)
    (hoff : Ehdr.shoff mem symtabBase = headersLen m)
    (hsize : Ehdr.shentsize mem symtabBase = Ehdr.shentsize m tempBase) :
    shdrAt mem symtabBase p = imageHdr m p := by
  obtain ⟨-, hend, hfile⟩ := h.imageHdr_end hp
  rw [shdrAt, hoff, hsize]
  refine Nat.mod_eq_of_lt ?_
  rw [imageHdr] at hend
  unfold tempBase at *
  omega

/-- With all sections looked at, the linking begins. -/
theorem HeadersCopied.linked {s : SymtabCopy}
    (hc : HeadersCopied m n (Ehdr.shnum m tempBase) s) : HeadersLinked m n 0 s.mem where
  file := hc.file
  shoff := hc.shoff
  shentsize := hc.shentsize
  shnum := hc.shnum
  bytes p j hj k hk _ := hc.headers p j hj k hk
  link _ _ _ hlt := absurd hlt (Nat.not_lt_zero _)

/-- A header that is as it was has the fields of the file. -/
theorem HeadersLinked.field (hl : HeadersLinked m n i mem)
    (hj : (copiedHeaders m)[p]? = some j) {off k : ℕ}
    (hoff : off + k ≤ Ehdr.shentsize m tempBase)
    (hsame : off + k ≤ 40 ∨ 44 ≤ off ∨ i ≤ p ∨ Shdr.link m (shdrAt m tempBase j) = 0) :
    num mem (imageHdr m p + off) k = num m (shdrAt m tempBase j + off) k :=
  num_congr fun l _ => by
    rw [Nat.add_assoc, Nat.add_assoc]
    exact hl.bytes p j hj _ (by omega) (by omega)

/-- The comparison of two headers compares all their bytes. -/
theorem sameBytes_iff {a b : ℕ} :
    sameBytes mem a b n = true ↔ ∀ k < n, mem (a + k) = mem (b + k) := by
  simp [sameBytes]

/-- A symbol table's string table is among the headers that are copied. -/
theorem NucleusImage.link_copied (h : NucleusImage m n) (hj : (copiedHeaders m)[p]? = some j)
    (hne : Shdr.link m (shdrAt m tempBase j) ≠ 0) :
    Shdr.type m (shdrAt m tempBase (Shdr.link m (shdrAt m tempBase j))) = shtStrtab ∧
      ∃ q : ℕ, (copiedHeaders m)[q]? = some (Shdr.link m (shdrAt m tempBase j)) := by
  obtain ⟨hjlt, hjcopied⟩ := copied_of_getElem? hj
  have htype : Shdr.type m (shdrAt m tempBase j) = shtSymtab := by
    rcases of_decide_eq_true hjcopied with hnull | hsym | hstr
    · exact absurd (h.flat j hjlt (Or.inl hnull)) hne
    · exact hsym
    · exact absurd (h.flat j hjlt (Or.inr hstr)) hne
  obtain ⟨hlt, hstr⟩ := h.links j hjlt htype
  refine ⟨hstr, List.mem_iff_getElem?.1 (mem_copiedHeaders.2 ⟨hlt, ?_⟩)⟩
  rw [hstr]
  rfl

/-- The header that `memcmp` finds is the copy of the string table's. -/
theorem HeadersLinked.found (h : NucleusImage m n) (hl : HeadersLinked m n i mem) {l q : ℕ}
    (hllt : l < Ehdr.shnum m tempBase) (hstr : Shdr.type m (shdrAt m tempBase l) = shtStrtab)
    (hq : q < (copiedHeaders m).length)
    (hsame : sameBytes mem (shdrAt m tempBase l) (imageHdr m q) (Ehdr.shentsize m tempBase)) :
    (copiedHeaders m)[q]? = some l := by
  obtain ⟨j, hj⟩ : ∃ j, (copiedHeaders m)[q]? = some j := ⟨_, List.getElem?_eq_getElem hq⟩
  obtain ⟨hjlt, -⟩ := copied_of_getElem? hj
  have hbytes := sameBytes_iff.1 hsame
  have hsize := h.shentsize
  have htype : Shdr.type m (shdrAt m tempBase j) = shtStrtab := by
    rw [← hstr, ← hl.file.type h hllt, Shdr.type, ← hl.field hj (by omega) (Or.inl (by omega))]
    refine num_congr fun k hk => ?_
    rw [Nat.add_assoc, Nat.add_assoc, hbytes _ (by omega)]
  have hflat := h.flat j hjlt (Or.inr htype)
  have hl' : l ∈ copiedHeaders m := mem_copiedHeaders.2 ⟨hllt, by rw [hstr]; rfl⟩
  by_contra hne
  rw [hj, Option.some.injEq] at hne
  obtain ⟨k, hk, hdiff⟩ := h.distinct j (List.mem_of_getElem? hj) l hl' hne
  obtain ⟨heq, hend⟩ := h.shdrAt_eq hllt
  rw [← hl.bytes q j hj k hk (Or.inr (Or.inr (Or.inr hflat))), ← hbytes k hk,
    hl.file _ (by omega) (by omega)] at hdiff
  exact hdiff rfl

/-- **The table linked to is found** among the copied headers, if it is a string table. -/
theorem HeadersLinked.find (h : NucleusImage m n) (hl : HeadersLinked m n i mem) {l q : ℕ}
    (hq : (copiedHeaders m)[q]? = some l)
    (hstr : Shdr.type m (shdrAt m tempBase l) = shtStrtab) :
    ∃ q', ((List.range (Ehdr.shnum mem symtabBase)).find? fun j =>
        sameBytes mem (shdrAt mem tempBase l) (shdrAt mem symtabBase j)
          (Ehdr.shentsize mem symtabBase)) = some q' ∧
      (copiedHeaders m)[q']? = some l := by
  obtain ⟨hllt, -⟩ := copied_of_getElem? hq
  obtain ⟨heq, hend⟩ := h.shdrAt_eq hllt
  have hflat := h.flat l hllt (Or.inr hstr)
  have hqlt := lt_length_of_getElem? hq
  rw [hl.file.shdrAt h, hl.shentsize, hl.shnum]
  cases hfind : (List.range (copiedHeaders m).length).find? fun j =>
      sameBytes mem (shdrAt m tempBase l) (shdrAt mem symtabBase j)
        (Ehdr.shentsize m tempBase) with
  | none =>
    have hnone := List.find?_eq_none.1 hfind q (List.mem_range.2 hqlt)
    rw [h.shdrAt_image hqlt hl.shoff hl.shentsize] at hnone
    refine absurd (sameBytes_iff.2 fun k hk => ?_) hnone
    rw [hl.bytes q l hq k hk (Or.inr (Or.inr (Or.inr hflat))), hl.file _ (by omega) (by omega)]
  | some q' =>
    have hlt := List.mem_range.1 (List.mem_of_find?_eq_some hfind)
    have hsame := List.find?_some hfind
    rw [h.shdrAt_image hlt hl.shoff hl.shentsize] at hsame
    exact ⟨q', rfl, hl.found h hllt hstr hlt hsame⟩

/-- One header linked. -/
theorem HeadersLinked.step (h : NucleusImage m n) (hi : i < (copiedHeaders m).length)
    (hl : HeadersLinked m n i mem) : HeadersLinked m n (i + 1) (linkSection i mem) := by
  obtain ⟨j, hj⟩ : ∃ j, (copiedHeaders m)[i]? = some j := ⟨_, List.getElem?_eq_getElem hi⟩
  obtain ⟨hjlt, hjcopied⟩ := copied_of_getElem? hj
  have hsize := h.shentsize
  have hlink : Shdr.link mem (imageHdr m i) = Shdr.link m (shdrAt m tempBase j) :=
    hl.field hj (by omega) (Or.inr (Or.inr (Or.inl le_rfl)))
  rw [linkSection, h.shdrAt_image hi hl.shoff hl.shentsize, hlink]
  by_cases hzero : Shdr.link m (shdrAt m tempBase j) = 0
  · rw [if_pos hzero]
    refine ⟨hl.file, hl.shoff, hl.shentsize, hl.shnum, fun p j' hj' k hk hor => ?_,
      fun p j' hj' hp hne => ?_⟩
    · exact hl.bytes p j' hj' k hk (by omega)
    · rcases Nat.lt_succ_iff_lt_or_eq.1 hp with hlt | rfl
      · exact hl.link p j' hj' hlt hne
      · obtain rfl := Option.some.inj (hj.symm.trans hj')
        exact absurd hzero hne
  · rw [if_neg hzero]
    obtain ⟨hstr, q, hq⟩ := h.link_copied hj hzero
    obtain ⟨q', hfind, hq'⟩ := hl.find h hq hstr
    have hlt : q' < 256 ^ 4 := by
      have := lt_length_of_getElem? hq'
      have := length_copiedBelow_le m (Ehdr.shnum m tempBase)
      have : Ehdr.shnum m tempBase < 65536 := num_lt _ _ 2
      rw [copiedHeaders] at *
      omega
    obtain ⟨hbegin, hend, hfile⟩ := h.imageHdr_end hi
    dsimp only
    rw [hfind]
    dsimp only
    have hout : ∀ p', p' ≠ i → ∀ k < Ehdr.shentsize m tempBase,
        imageHdr m p' + k < imageHdr m i + 40 ∨ imageHdr m i + 44 ≤ imageHdr m p' + k := by
      intro p' hne k hk
      rcases lt_or_gt_of_ne hne with hlt' | hgt
      · have := imageHdr_apart (m := m) hlt'
        omega
      · have := imageHdr_apart (m := m) hgt
        omega
    constructor
    case file => exact hl.file.setNum (by omega)
    case shoff => exact (num_setNum_of_disjoint (by omega)).trans hl.shoff
    case shentsize => exact (num_setNum_of_disjoint (by omega)).trans hl.shentsize
    case shnum => exact (num_setNum_of_disjoint (by omega)).trans hl.shnum
    case bytes =>
      intro p' j' hj' k hk hor
      by_cases hpi : p' = i
      · subst hpi
        obtain rfl := Option.some.inj (hj.symm.trans hj')
        rw [setNum_of_disjoint (by omega)]
        exact hl.bytes p' j hj k hk (by omega)
      · have := hout p' hpi k hk
        rw [setNum_of_disjoint (by omega)]
        exact hl.bytes p' j' hj' k hk (by omega)
    case link =>
      intro p' j' hj' hp' hne
      rcases Nat.lt_succ_iff_lt_or_eq.1 hp' with hlt' | rfl
      · have := imageHdr_apart (m := m) hlt'
        rw [Shdr.link, num_setNum_of_disjoint (by omega)]
        exact hl.link p' j' hj' hlt' hne
      · obtain rfl := Option.some.inj (hj.symm.trans hj')
        rw [Shdr.link, num_setNum _ _ hlt]
        exact hq'

/-- **All links are numbers of the image.** -/
theorem linkSections_linked (h : NucleusImage m n) (hl : HeadersLinked m n 0 mem) :
    HeadersLinked m n (copiedHeaders m).length
      (forUp (fun m => Ehdr.shnum m symtabBase) linkSection 65536 0 mem) := by
  have hlt : Ehdr.shnum m tempBase < 65536 := num_lt _ _ 2
  have hlen := length_copiedBelow_le m (Ehdr.shnum m tempBase)
  rw [← copiedHeaders] at hlen
  exact forUp_invariant (fun _ _ hc => hc.shnum) (fun _ _ hi hc => hc.step h hi) hl
    (Nat.zero_le _) (by omega)

end HeadersLinked

/-! ### The tables -/

/-- **The first `i` tables are in the image**, one behind the other, and their headers say
where; those behind have the file's places. -/
structure TablesPlaced (m : Mem) (n i : ℕ) (s : SymtabCopy) : Prop where
  file : HoldsFile m n s.mem
  symtab : s.symtab = symtabBase + tableStart m i
  shoff : Ehdr.shoff s.mem symtabBase = headersLen m
  shentsize : Ehdr.shentsize s.mem symtabBase = Ehdr.shentsize m tempBase
  shnum : Ehdr.shnum s.mem symtabBase = (copiedHeaders m).length
  bytes : ∀ p j, (copiedHeaders m)[p]? = some j → ∀ k < Ehdr.shentsize m tempBase,
    k < 24 ∨ 32 ≤ k ∧ k < 40 ∨ 44 ≤ k →
    s.mem (imageHdr m p + k) = m (shdrAt m tempBase j + k)
  link : ∀ p j, (copiedHeaders m)[p]? = some j → Shdr.link m (shdrAt m tempBase j) ≠ 0 →
    (copiedHeaders m)[Shdr.link s.mem (imageHdr m p)]? = some (Shdr.link m (shdrAt m tempBase j))
  old : ∀ p j, (copiedHeaders m)[p]? = some j → i ≤ p →
    Shdr.offset s.mem (imageHdr m p) = Shdr.offset m (shdrAt m tempBase j)
  offset : ∀ p, p ≠ 0 → p < i → Shdr.offset s.mem (imageHdr m p) = tableStart m p
  table : ∀ p j, (copiedHeaders m)[p]? = some j → p ≠ 0 → p < i →
    ∀ k < Shdr.size m (shdrAt m tempBase j), s.mem (symtabBase + tableStart m p + k) =
      m (tempBase + Shdr.offset m (shdrAt m tempBase j) + k)

section TablesPlaced

variable {m mem : Mem} {n i p q j : ℕ} {s : SymtabCopy}

/-- The headers are in the order of the file. -/
theorem copiedHeaders_lt {j' : ℕ} (hpq : p < q) (hp : (copiedHeaders m)[p]? = some j)
    (hq : (copiedHeaders m)[q]? = some j') : j < j' := by
  obtain ⟨hplt, rfl⟩ := List.getElem?_eq_some_iff.1 hp
  obtain ⟨hqlt, rfl⟩ := List.getElem?_eq_some_iff.1 hq
  have hsorted : (copiedHeaders m).Pairwise (· < ·) := List.pairwise_lt_range.filter _
  exact List.pairwise_iff_getElem.1 hsorted p q hplt hqlt hpq

/-- Behind the null section come tables. -/
theorem NucleusImage.table_end (h : NucleusImage m n) (hj : (copiedHeaders m)[p]? = some j)
    (hp : p ≠ 0) :
    Shdr.offset m (shdrAt m tempBase j) + Shdr.size m (shdrAt m tempBase j) ≤ n := by
  obtain ⟨hjlt, hcopied⟩ := copied_of_getElem? hj
  refine h.tables j hjlt ?_
  rcases of_decide_eq_true hcopied with hnull | hsym | hstr
  · obtain ⟨j₀, hj₀⟩ : ∃ j₀, (copiedHeaders m)[0]? = some j₀ :=
      ⟨_, List.getElem?_eq_getElem (by have := lt_length_of_getElem? hj; omega)⟩
    have hlt := copiedHeaders_lt (Nat.pos_of_ne_zero hp) hj₀ hj
    have := h.null j hjlt hnull
    omega
  · exact Or.inl hsym
  · exact Or.inr hstr

/-- The tables end before the file. -/
theorem NucleusImage.tableStart_end (h : NucleusImage m n) (hp : p ≤ (copiedHeaders m).length) :
    symtabBase + tableStart m p ≤ tempBase :=
  (Nat.add_le_add_left (tableStart_le m hp) _).trans h.room

/-- The tables begin behind the headers. -/
theorem headers_le_tableStart (m : Mem) (p : ℕ) :
    headersLen m + Ehdr.shentsize m tempBase * (copiedHeaders m).length ≤ tableStart m p :=
  tableStart_le m (Nat.zero_le p)

/-- With all headers linked, the tables are copied, from the second one on. -/
theorem HeadersLinked.placed (h : NucleusImage m n) {mem : Mem}
    (hl : HeadersLinked m n (copiedHeaders m).length mem) :
    TablesPlaced m n 1 ⟨mem, symtabBase + headersLen m +
      Ehdr.shentsize m tempBase * (copiedHeaders m).length⟩ where
  file := hl.file
  symtab := Nat.add_assoc _ _ _
  shoff := hl.shoff
  shentsize := hl.shentsize
  shnum := hl.shnum
  bytes p j hj k hk hor := hl.bytes p j hj k hk (by omega)
  link p j hj hne := hl.link p j hj (lt_length_of_getElem? hj) hne
  old p j hj _ := by
    have := h.shentsize
    exact hl.field hj (by omega) (Or.inl (by omega))
  offset p hp hlt := absurd hlt (by omega)
  table p j _ hp hlt := absurd hlt (by omega)

/-- A field of a copied header that the copy does not set is the file's. -/
theorem TablesPlaced.field (hs : TablesPlaced m n i s) (hj : (copiedHeaders m)[p]? = some j)
    {off k : ℕ} (hoff : off + k ≤ Ehdr.shentsize m tempBase)
    (hsame : off + k ≤ 24 ∨ 32 ≤ off ∧ off + k ≤ 40 ∨ 44 ≤ off) :
    num s.mem (imageHdr m p + off) k = num m (shdrAt m tempBase j + off) k :=
  num_congr fun l _ => by
    rw [Nat.add_assoc, Nat.add_assoc]
    exact hs.bytes p j hj _ (by omega) (by omega)

/-- One table copied behind the ones before it. -/
theorem TablesPlaced.step (h : NucleusImage m n) (hi : i < (copiedHeaders m).length) (hzero : i ≠ 0)
    (hs : TablesPlaced m n i s) : TablesPlaced m n (i + 1) (copyTable i s) := by
  obtain ⟨j, hj⟩ : ∃ j, (copiedHeaders m)[i]? = some j := ⟨_, List.getElem?_eq_getElem hi⟩
  have hsize := h.shentsize
  have hentry := h.table_end hj hzero
  have hsmall := h.small
  obtain ⟨hbegin, hend, hfile⟩ := h.imageHdr_end hi
  have hstart := headers_le_tableStart m i
  have hnext := h.tableStart_end (Nat.succ_le_of_lt hi)
  rw [Nat.succ_eq_add_one, tableStart_succ m hzero hj] at hnext
  have hsz : Shdr.size s.mem (imageHdr m i) = Shdr.size m (shdrAt m tempBase j) :=
    hs.field hj (by omega) (by omega)
  have hold := hs.old i j hj le_rfl
  have haddr : (tempBase + Shdr.offset m (shdrAt m tempBase j)) % 2 ^ 64 =
      tempBase + Shdr.offset m (shdrAt m tempBase j) := by
    refine Nat.mod_eq_of_lt ?_
    unfold tempBase at *
    omega
  have hlen : tableStart m i < 256 ^ 8 := by
    unfold tempBase at *
    omega
  rw [copyTable, h.shdrAt_image hi hs.shoff hs.shentsize, hsz, hold, haddr, hs.symtab,
    Nat.add_sub_cancel_left]
  generalize hmem : setNum (copy s.mem (symtabBase + tableStart m i)
    (tempBase + Shdr.offset m (shdrAt m tempBase j)) (Shdr.size m (shdrAt m tempBase j)))
    (imageHdr m i + 24) 8 (tableStart m i) = mem
  have hout : ∀ b < symtabBase + tableStart m i,
      b < imageHdr m i + 24 ∨ imageHdr m i + 32 ≤ b → mem b = s.mem b := fun b hb hor => by
    rw [← hmem, setNum_of_disjoint (by omega), copy_of_disjoint (Or.inl hb)]
  have hnum : ∀ {a k : ℕ}, a + k ≤ symtabBase + tableStart m i →
      a + k ≤ imageHdr m i + 24 ∨ imageHdr m i + 32 ≤ a → num mem a k = num s.mem a k :=
    fun hend hor => num_congr fun _ _ => hout _ (by omega) (by omega)
  have hnew : Shdr.size mem (imageHdr m i) = Shdr.size m (shdrAt m tempBase j) :=
    (hnum (by omega) (by omega)).trans hsz
  have hapart : ∀ p', p' ≠ i → p' < (copiedHeaders m).length →
      (imageHdr m p' + Ehdr.shentsize m tempBase ≤ imageHdr m i ∨
        imageHdr m i + Ehdr.shentsize m tempBase ≤ imageHdr m p') ∧
      imageHdr m p' + Ehdr.shentsize m tempBase ≤ symtabBase + tableStart m i := by
    intro p' hne hp'
    have := (h.imageHdr_end hp').2.1
    refine ⟨?_, by omega⟩
    rcases lt_or_gt_of_ne hne with hlt | hgt
    · exact Or.inl (imageHdr_apart hlt)
    · exact Or.inr (imageHdr_apart hgt)
  constructor
  case file =>
    rw [← hmem]
    exact (hs.file.copy (by omega)).setNum (by omega)
  case symtab =>
    rw [hnew, tableStart_succ m hzero hj]
    exact Nat.add_assoc _ _ _
  case shoff => exact (hnum (by omega) (by omega)).trans hs.shoff
  case shentsize => exact (hnum (by omega) (by omega)).trans hs.shentsize
  case shnum => exact (hnum (by omega) (by omega)).trans hs.shnum
  case bytes =>
    intro p' j' hj' k hk hor
    rw [← hs.bytes p' j' hj' k hk hor]
    by_cases hpi : p' = i
    · subst hpi
      exact hout _ (by omega) (by omega)
    · have := hapart p' hpi (lt_length_of_getElem? hj')
      exact hout _ (by omega) (by omega)
  case link =>
    intro p' j' hj' hne
    have hlink : Shdr.link mem (imageHdr m p') = Shdr.link s.mem (imageHdr m p') := by
      by_cases hpi : p' = i
      · subst hpi
        exact hnum (by omega) (by omega)
      · have := hapart p' hpi (lt_length_of_getElem? hj')
        exact hnum (by omega) (by omega)
    rw [hlink]
    exact hs.link p' j' hj' hne
  case old =>
    intro p' j' hj' hp'
    have := hapart p' (by omega) (lt_length_of_getElem? hj')
    exact (hnum (by omega) (by omega)).trans (hs.old p' j' hj' (by omega))
  case offset =>
    intro p' hne hp'
    rcases Nat.lt_succ_iff_lt_or_eq.1 hp' with hlt | rfl
    · have := hapart p' (by omega) (by omega)
      exact (hnum (by omega) (by omega)).trans (hs.offset p' hne hlt)
    · rw [← hmem]
      exact num_setNum _ _ hlen
  case table =>
    intro p' j' hj' hne hp' k hk
    dsimp only
    rcases Nat.lt_succ_iff_lt_or_eq.1 hp' with hlt | rfl
    · -- a table from before ends where this one begins
      have hbefore := tableStart_le m (Nat.succ_le_of_lt hlt)
      have hbegin' := headers_le_tableStart m p'
      rw [Nat.succ_eq_add_one, tableStart_succ m hne hj'] at hbefore
      rw [hout _ (by omega) (by omega)]
      exact hs.table p' j' hj' hne hlt k hk
    · obtain rfl := Option.some.inj (hj.symm.trans hj')
      rw [← hmem, setNum_of_disjoint (by omega), copy_inside hk]
      exact hs.file _ (by omega) (by omega)

/-- **All tables are in the image.** -/
theorem buildSymtab_placed (h : NucleusImage m n) (hf : HoldsFile m n mem) :
    ∃ s, buildSymtab mem = s.mem ∧ TablesPlaced m n (copiedHeaders m).length s := by
  have hlt : Ehdr.shnum m tempBase < 65536 := num_lt _ _ 2
  have hlen := length_copiedBelow_le m (Ehdr.shnum m tempBase)
  have hpos : 0 < (copiedHeaders m).length := by
    refine List.length_pos_of_mem (mem_copiedHeaders.2 ⟨h.first.1, ?_⟩)
    rw [h.first.2]
    rfl
  have hcopied := copySections_copied h hf
  have hplaced := (linkSections_linked h hcopied.linked).placed h
  rw [copiedHeaders, ← hcopied.symtab] at hplaced
  rw [← copiedHeaders] at hlen
  refine ⟨_, rfl, ?_⟩
  have hrun : TablesPlaced m n (copiedHeaders m).length _ ∧ (copiedHeaders m).length ≠ 0 :=
    forUp_invariant (P := fun i s => TablesPlaced m n i s ∧ i ≠ 0) (fun _ _ hs => hs.1.shnum)
      (fun _ _ hi hs => ⟨hs.1.step h hi hs.2, Nat.succ_ne_zero _⟩) ⟨hplaced, Nat.one_ne_zero⟩
      hpos (n := 65536) (by omega)
  exact hrun.1

/-- A section with a table has one in the image. -/
theorem NucleusImage.ne_zero (h : NucleusImage m n) (hj : (copiedHeaders m)[p]? = some j)
    (hne : j ≠ 0) : p ≠ 0 := by
  obtain ⟨q, hq⟩ := List.mem_iff_getElem?.1
    (mem_copiedHeaders.2 ⟨h.first.1, by rw [h.first.2]; rfl⟩ : 0 ∈ copiedHeaders m)
  rintro rfl
  rcases Nat.eq_zero_or_pos q with rfl | hpos
  · exact hne (Option.some.inj (hj.symm.trans hq))
  · exact absurd (copiedHeaders_lt hpos hj hq) (Nat.not_lt_zero j)

/-- The size of a copied table is a positive `int`. -/
theorem NucleusImage.size_lt (h : NucleusImage m n) (hj : (copiedHeaders m)[p]? = some j)
    (hne : j ≠ 0) : Shdr.size m (shdrAt m tempBase j) < 2 ^ 31 := by
  have hend := h.tableStart_end (Nat.succ_le_of_lt (lt_length_of_getElem? hj))
  have htemp : tempBase = 2 ^ 22 := rfl
  rw [Nat.succ_eq_add_one, tableStart_succ m (h.ne_zero hj hne) hj] at hend
  omega

/-- A copied header is at its place in the image. -/
theorem TablesPlaced.shdrAt_eq (h : NucleusImage m n) (hs : TablesPlaced m n i s)
    (hj : (copiedHeaders m)[p]? = some j) : shdrAt s.mem symtabBase p = imageHdr m p :=
  h.shdrAt_image (lt_length_of_getElem? hj) hs.shoff hs.shentsize

end TablesPlaced

/-! ### The tables that the nucleus finds -/

/-- The first symbol table of the file. -/
def FirstSymtab (m : Mem) (i : ℕ) : Prop :=
  i < Ehdr.shnum m tempBase ∧ Shdr.type m (shdrAt m tempBase i) = shtSymtab ∧
    ∀ j < i, Shdr.type m (shdrAt m tempBase j) ≠ shtSymtab

/-- **`t` is, in the storage `img`, the table of section `j` of the file**: its size, the
size of its entries, and its bytes. -/
structure Section.IsTable (file img : Mem) (j : ℕ) (t : Section) : Prop where
  entsize : t.entsize = Shdr.entsize file (shdrAt file tempBase j)
  size : t.size = Shdr.size file (shdrAt file tempBase j)
  bytes : ∀ k < Shdr.size file (shdrAt file tempBase j),
    img (t.table + k) = file (tempBase + Shdr.offset file (shdrAt file tempBase j) + k)

/-- The image is that of the file: the nucleus finds its first symbol table and the
string table of that, the headers are those that were copied, and no table is in the
way of another or of the headers. -/
structure Faithful (file img : Mem) : Prop where
  symtab : ∀ i, FirstSymtab file i → ∃ t, getSection img symtabBase shtSymtab = some t ∧
    t.IsTable file img i
  strtab : ∀ i, FirstSymtab file i → ∃ t, getSection img symtabBase shtStrtab = some t ∧
    t.IsTable file img (Shdr.link file (shdrAt file tempBase i))
  shnum : Ehdr.shnum img symtabBase = (copiedHeaders file).length
  behind : ∀ p, p ≠ 0 → p < Ehdr.shnum img symtabBase →
    Ehdr.shoff img symtabBase + Ehdr.shentsize img symtabBase * Ehdr.shnum img symtabBase ≤
      Shdr.offset img (shdrAt img symtabBase p)
  apart : ∀ p q, p ≠ 0 → p < q → q < Ehdr.shnum img symtabBase →
    Shdr.offset img (shdrAt img symtabBase p) + Shdr.size img (shdrAt img symtabBase p) ≤
      Shdr.offset img (shdrAt img symtabBase q)

/-- The entry sizes of the two tables are `int`s. -/
def EntsizesFit (m : Mem) : Prop :=
  ∀ i, FirstSymtab m i → Shdr.entsize m (shdrAt m tempBase i) < 2 ^ 31 ∧
    Shdr.entsize m (shdrAt m tempBase (Shdr.link m (shdrAt m tempBase i))) < 2 ^ 31

section Faithful

variable {m mem : Mem} {n i p j : ℕ} {s : SymtabCopy}

/-- A size read as an `int` is the size exactly below 2³¹. -/
theorem toInt_eq_iff {v : ℕ} : toInt v = v ↔ v < 2 ^ 31 := by
  rw [toInt, BitVec.toInt_eq_toNat_bmod, BitVec.toNat_ofNat, Int.bmod]
  omega

/-- What `get_section` makes of header `p` of the image. -/
def tableOf (m : Mem) (p j : ℕ) : Section :=
  ⟨symtabBase + tableStart m p, toInt (Shdr.entsize m (shdrAt m tempBase j)),
    toInt (Shdr.size m (shdrAt m tempBase j))⟩

/-- **A copied table is the file's exactly when its entry size is a positive `int`**, for that
is how it is stored. -/
theorem TablesPlaced.isTable_iff (h : NucleusImage m n)
    (hs : TablesPlaced m n (copiedHeaders m).length s)
    (hj : (copiedHeaders m)[p]? = some j) (hne : j ≠ 0) :
    (tableOf m p j).IsTable m s.mem j ↔ Shdr.entsize m (shdrAt m tempBase j) < 2 ^ 31 := by
  rw [← toInt_eq_iff]
  refine ⟨fun ht => ht.entsize, fun hfits => ⟨hfits, toInt_eq_iff.2 (h.size_lt hj hne), ?_⟩⟩
  exact hs.table p j hj (h.ne_zero hj hne) (lt_length_of_getElem? hj)

/-- The fields that `get_section` reads. -/
theorem TablesPlaced.tableOf_eq (h : NucleusImage m n)
    (hs : TablesPlaced m n (copiedHeaders m).length s)
    (hj : (copiedHeaders m)[p]? = some j) (hne : j ≠ 0) :
    (⟨(symtabBase + Shdr.offset s.mem (imageHdr m p)) % 2 ^ 64,
      toInt (Shdr.entsize s.mem (imageHdr m p)), toInt (Shdr.size s.mem (imageHdr m p))⟩ :
        Section) = tableOf m p j := by
  have hsize := h.shentsize
  have hplt := lt_length_of_getElem? hj
  have hend := h.tableStart_end hplt.le
  have hoff := hs.offset p (h.ne_zero hj hne) hplt
  have hent : Shdr.entsize s.mem (imageHdr m p) = Shdr.entsize m (shdrAt m tempBase j) :=
    hs.field hj (by omega) (by omega)
  have hsz : Shdr.size s.mem (imageHdr m p) = Shdr.size m (shdrAt m tempBase j) :=
    hs.field hj (by omega) (by omega)
  rw [hoff, hent, hsz, tableOf, Nat.mod_eq_of_lt]
  unfold tempBase at hend
  omega

/-- The first symbol table of the image is that of the file. -/
theorem TablesPlaced.find (h : NucleusImage m n)
    (hs : TablesPlaced m n (copiedHeaders m).length s)
    (hi : FirstSymtab m i) :
    ∃ p, ((List.range (Ehdr.shnum s.mem symtabBase)).find? fun p =>
        Shdr.type s.mem (shdrAt s.mem symtabBase p) = shtSymtab) = some p ∧
      (copiedHeaders m)[p]? = some i := by
  obtain ⟨hlt, htype, hfirst⟩ := hi
  have hsize := h.shentsize
  have htypes : ∀ {p j : ℕ}, (copiedHeaders m)[p]? = some j →
      Shdr.type s.mem (shdrAt s.mem symtabBase p) = Shdr.type m (shdrAt m tempBase j) :=
    fun hj => by
      rw [hs.shdrAt_eq h hj]
      exact hs.field hj (by omega) (by omega)
  obtain ⟨q, hq⟩ := List.mem_iff_getElem?.1
    (mem_copiedHeaders.2 ⟨hlt, by rw [htype]; rfl⟩ : i ∈ copiedHeaders m)
  rw [hs.shnum]
  cases hfind : (List.range (copiedHeaders m).length).find? fun p =>
      Shdr.type s.mem (shdrAt s.mem symtabBase p) = shtSymtab with
  | none =>
    have hnone := List.find?_eq_none.1 hfind q (List.mem_range.2 (lt_length_of_getElem? hq))
    exact absurd (decide_eq_true ((htypes hq).trans htype)) hnone
  | some p =>
    have hp := List.mem_range.1 (List.mem_of_find?_eq_some hfind)
    obtain ⟨j, hj⟩ : ∃ j, (copiedHeaders m)[p]? = some j := ⟨_, List.getElem?_eq_getElem hp⟩
    have hfound := List.find?_some hfind
    have hsym : Shdr.type m (shdrAt m tempBase j) = shtSymtab :=
      (htypes hj).symm.trans (of_decide_eq_true hfound)
    refine ⟨p, rfl, ?_⟩
    -- neither before the first nor, as `find?` goes up, behind it
    rcases lt_trichotomy p q with hpq | rfl | hqp
    · exact absurd hsym (hfirst j (copiedHeaders_lt hpq hj hq))
    · exact hq
    · have hbefore := (List.find?_range_eq_some.1 hfind).2.2 q hqp
      rw [(htypes hq).trans htype] at hbefore
      cases hbefore

/-- The first symbol table is not section 0, nor is what it links to. -/
theorem FirstSymtab.ne_zero (h : NucleusImage m n) (hi : FirstSymtab m i) :
    i ≠ 0 ∧ Shdr.link m (shdrAt m tempBase i) ≠ 0 := by
  obtain ⟨hlt, htype, -⟩ := hi
  obtain ⟨-, hstr⟩ := h.links i hlt htype
  constructor
  · rintro rfl
    rw [h.first.2] at htype
    cases htype
  · intro hzero
    rw [hzero, h.first.2] at hstr
    cases hstr

/-- The two calls of `get_section`. -/
theorem TablesPlaced.getSection (h : NucleusImage m n)
    (hs : TablesPlaced m n (copiedHeaders m).length s)
    (hi : FirstSymtab m i) :
    (∃ p, (copiedHeaders m)[p]? = some i ∧
      Hvf.getSection s.mem symtabBase shtSymtab = some (tableOf m p i)) ∧
    ∃ q, (copiedHeaders m)[q]? = some (Shdr.link m (shdrAt m tempBase i)) ∧
      Hvf.getSection s.mem symtabBase shtStrtab =
        some (tableOf m q (Shdr.link m (shdrAt m tempBase i))) := by
  obtain ⟨p, hfind, hp⟩ := hs.find h hi
  obtain ⟨hne, hlne⟩ := hi.ne_zero h
  have hq := hs.link p i hp hlne
  refine ⟨⟨p, hp, ?_⟩, _, hq, ?_⟩
  · rw [Hvf.getSection, if_neg (by decide), hfind, Option.map_some]
    dsimp only
    rw [if_neg (by decide), hs.shdrAt_eq h hp, hs.tableOf_eq h hp hne]
  · rw [Hvf.getSection, if_pos rfl, hfind, Option.map_some]
    dsimp only
    rw [if_pos rfl, hs.shdrAt_eq h hp, hs.shdrAt_eq h hq, hs.tableOf_eq h hq hlne]

/-- The image that `load_nucleus` builds is that of the file where the entry sizes are
`int`s. -/
theorem buildSymtab_faithful_iff (h : NucleusImage m n) (hf : HoldsFile m n mem) :
    Faithful m (buildSymtab mem) ↔ EntsizesFit m := by
  obtain ⟨s, hbuild, hs⟩ := buildSymtab_placed h hf
  rw [hbuild]
  constructor
  · intro hf i hi
    obtain ⟨hne, hlne⟩ := hi.ne_zero h
    obtain ⟨⟨p, hp, hsym⟩, q, hq, hstr⟩ := hs.getSection h hi
    obtain ⟨t, ht, htable⟩ := hf.symtab i hi
    obtain ⟨u, hu, hutable⟩ := hf.strtab i hi
    obtain rfl := Option.some.inj (hsym.symm.trans ht)
    obtain rfl := Option.some.inj (hstr.symm.trans hu)
    exact ⟨(hs.isTable_iff h hp hne).1 htable, (hs.isTable_iff h hq hlne).1 hutable⟩
  · intro hfits
    have hfield : ∀ {p}, p ≠ 0 → p < (copiedHeaders m).length →
        Shdr.offset s.mem (shdrAt s.mem symtabBase p) = tableStart m p := fun hne hp => by
      rw [hs.shdrAt_eq h (List.getElem?_eq_getElem hp), hs.offset _ hne hp]
    constructor
    case symtab =>
      intro i hi
      obtain ⟨⟨p, hp, hsym⟩, -⟩ := hs.getSection h hi
      exact ⟨_, hsym, (hs.isTable_iff h hp (hi.ne_zero h).1).2 (hfits i hi).1⟩
    case strtab =>
      intro i hi
      obtain ⟨-, q, hq, hstr⟩ := hs.getSection h hi
      exact ⟨_, hstr, (hs.isTable_iff h hq (hi.ne_zero h).2).2 (hfits i hi).2⟩
    case shnum => exact hs.shnum
    case behind =>
      intro p hne hp
      rw [hs.shnum] at hp
      rw [hfield hne hp, hs.shoff, hs.shentsize, hs.shnum]
      exact headers_le_tableStart m p
    case apart =>
      intro p q hne hpq hq
      rw [hs.shnum] at hq
      have hp : p < (copiedHeaders m).length := hpq.trans hq
      have hj := List.getElem?_eq_getElem hp
      have hsize := h.shentsize
      have hsz : Shdr.size s.mem (imageHdr m p) =
          Shdr.size m (shdrAt m tempBase (copiedHeaders m)[p]) := hs.field hj (by omega) (by omega)
      rw [hfield hne hp, hfield (by omega) hq, hs.shdrAt_eq h hj, hsz, ← tableStart_succ m hne hj]
      exact tableStart_le m hpq

end Faithful

/-! ### The segments -/

/-- No segment is loaded over the file. -/
def SegmentsApart (m : Mem) (n : ℕ) : Prop :=
  56 ≤ Ehdr.phentsize m tempBase ∧ ∀ i < Ehdr.phnum m tempBase,
    Phdr.type m (phdrAt m tempBase i) = 1 →
      Phdr.filesz m (phdrAt m tempBase i) ≤ Phdr.memsz m (phdrAt m tempBase i) ∧
      (Phdr.vaddr m (phdrAt m tempBase i) + Phdr.memsz m (phdrAt m tempBase i) ≤ tempBase ∨
        tempBase + n ≤ Phdr.vaddr m (phdrAt m tempBase i) ∧
          Phdr.vaddr m (phdrAt m tempBase i) + Phdr.memsz m (phdrAt m tempBase i) ≤ 2 ^ 64)

section Segments

variable {m mem : Mem} {n i : ℕ}

/-- A program header is where the file says, and within the file. -/
theorem NucleusImage.phdrAt_eq (h : NucleusImage m n) (hi : i < Ehdr.phnum m tempBase) :
    phdrAt m tempBase i = tempBase + Ehdr.phoff m tempBase + Ehdr.phentsize m tempBase * i ∧
      Ehdr.phoff m tempBase + Ehdr.phentsize m tempBase * i + Ehdr.phentsize m tempBase ≤ n := by
  have hle : Ehdr.phentsize m tempBase * (i + 1) ≤
      Ehdr.phentsize m tempBase * Ehdr.phnum m tempBase := Nat.mul_le_mul_left _ hi
  have hphdrs := h.phdrs
  have hsmall := h.small
  rw [Nat.mul_succ] at hle
  refine ⟨Nat.mod_eq_of_lt ?_, by omega⟩
  unfold tempBase at *
  omega

/-- The fields of a program header are those of the file. -/
theorem HoldsFile.phdr (h : NucleusImage m n) (hf : HoldsFile m n mem)
    (hi : i < Ehdr.phnum m tempBase) (hsize : 56 ≤ Ehdr.phentsize m tempBase) (off : ℕ) {k : ℕ}
    (hoff : off + k ≤ 56) :
    Bytes.num mem (phdrAt m tempBase i + off) k = Bytes.num m (phdrAt m tempBase i + off) k := by
  obtain ⟨heq, hend⟩ := h.phdrAt_eq hi
  exact hf.num (by omega) (by omega)

/-- Its place is the file's. -/
theorem phdrAt_eq_of_file (h : NucleusImage m n) (hf : HoldsFile m n mem) (i : ℕ) :
    phdrAt mem tempBase i = phdrAt m tempBase i := by
  rw [phdrAt, phdrAt, Ehdr.phoff, Ehdr.phoff, Ehdr.phentsize, Ehdr.phentsize,
    hf.ehdr h (by omega), hf.ehdr h (by omega)]

/-- Loading a segment leaves the file, if the segments are apart from it. -/
theorem loadSegment_file (h : NucleusImage m n) (hsegs : SegmentsApart m n)
    (hf : HoldsFile m n mem) (hi : i < Ehdr.phnum m tempBase) :
    HoldsFile m n (loadSegment i mem) := by
  obtain ⟨hsize, hsegs⟩ := hsegs
  have htype : Phdr.type mem (phdrAt m tempBase i) = Phdr.type m (phdrAt m tempBase i) :=
    hf.phdr h hi hsize 0 (by decide)
  rw [loadSegment, phdrAt_eq_of_file h hf, htype]
  by_cases hload : Phdr.type m (phdrAt m tempBase i) = 1
  · obtain ⟨hle, hapart⟩ := hsegs i hi hload
    have hfilesz : Phdr.filesz mem (phdrAt m tempBase i) =
        Phdr.filesz m (phdrAt m tempBase i) := hf.phdr h hi hsize _ (by omega)
    have hvaddr : Phdr.vaddr mem (phdrAt m tempBase i) =
        Phdr.vaddr m (phdrAt m tempBase i) := hf.phdr h hi hsize _ (by omega)
    have hmemsz : Phdr.memsz m (phdrAt m tempBase i) < 2 ^ 64 := num_lt _ _ 8
    rw [if_neg (not_not.2 hload), hfilesz, hvaddr]
    dsimp only
    generalize hm : (if Phdr.filesz m (phdrAt m tempBase i) ≠ 0 then
      copy mem (Phdr.vaddr m (phdrAt m tempBase i)) _ _ else mem) = m₁
    have hf₁ : HoldsFile m n m₁ := by
      intro a ha hlt
      rw [← hm, ← hf a ha hlt]
      split
      · exact copy_of_disjoint (by omega)
      · rfl
    have hfilesz₁ : Phdr.filesz m₁ (phdrAt m tempBase i) =
        Phdr.filesz m (phdrAt m tempBase i) := hf₁.phdr h hi hsize _ (by omega)
    have hmemsz₁ : Phdr.memsz m₁ (phdrAt m tempBase i) =
        Phdr.memsz m (phdrAt m tempBase i) := hf₁.phdr h hi hsize _ (by omega)
    have hvaddr₁ : Phdr.vaddr m₁ (phdrAt m tempBase i) =
        Phdr.vaddr m (phdrAt m tempBase i) := hf₁.phdr h hi hsize _ (by omega)
    rw [hfilesz₁, hmemsz₁, hvaddr₁]
    split
    · intro a ha hlt
      rw [← hf₁ a ha hlt, memset, if_neg]
      unfold tempBase at *
      omega
    · exact hf₁
  · rw [if_pos hload]
    exact hf

/-- **Segments that are apart from the file leave it where it is.** -/
theorem loadSegments_file (h : NucleusImage m n) (hsegs : SegmentsApart m n) :
    HoldsFile m n (loadSegments m) := by
  have hlt : Ehdr.phnum m tempBase < 65536 := num_lt _ _ 2
  have hphnum : ∀ mem, HoldsFile m n mem → Ehdr.phnum mem tempBase = Ehdr.phnum m tempBase :=
    fun _ hf => hf.ehdr h (by omega)
  exact forUp_invariant (P := fun _ mem => HoldsFile m n mem) (fun _ => hphnum)
    (fun _ _ hi hf => loadSegment_file h hsegs hf hi) (fun _ _ _ => rfl) (Nat.zero_le _)
    (by omega)

end Segments

/-! ### The nucleus -/

/-- A nucleus with one symbol, whose symbol table has `top * 2^24 + 24` for its entry
size. -/
def oneSymbol (top : UInt8) : Mem := fun a =>
  if a < tempBase then 0
  else
    ([0x7f, 0x45, 0x4c, 0x46, 2, 2, 1, 0, 0, 0, 0, 0, 0, 0, 0, 0, 0, 2, 0, 0x16, 0, 0, 0, 1,
      0, 0, 0, 0, 0, 0, 0, 0, 0, 0, 0, 0, 0, 0, 0, 0, 0, 0, 0, 0, 0, 0, 0, 64,
      0, 0, 0, 0, 0, 64, 0, 0, 0, 0, 0, 64, 0, 3, 0, 2] ++ List.replicate 64 0 ++
      [0, 0, 0, 1, 0, 0, 0, 2] ++ List.replicate 16 0 ++ [0, 0, 0, 0, 0, 0, 1, 0] ++
      [0, 0, 0, 0, 0, 0, 0, 24, 0, 0, 0, 2] ++ List.replicate 12 0 ++ [0, 0, 0, 0, top, 0, 0, 24] ++
      [0, 0, 0, 9, 0, 0, 0, 3] ++ List.replicate 16 0 ++ [0, 0, 0, 0, 0, 0, 1, 24] ++
      [0, 0, 0, 0, 0, 0, 0, 1]).getD (a - tempBase) 0

/-- The example's file is an image of 281 bytes. -/
theorem oneSymbol_image {top : UInt8} (h : top = 0 ∨ top = 0x80) :
    NucleusImage (oneSymbol top) 281 := by
  rcases h with rfl | rfl
  · constructor <;> decide +kernel
  · constructor <;> decide +kernel

/-- It has no segments. -/
theorem loadSegments_oneSymbol {top : UInt8} (h : top = 0 ∨ top = 0x80) :
    loadSegments (oneSymbol top) = oneSymbol top := by
  rcases h with rfl | rfl
  · exact forUp_done (by decide +kernel)
  · exact forUp_done (by decide +kernel)

/-- Its load is the building of its symbol table. -/
theorem loadNucleus_oneSymbol {top : UInt8} (h : top = 0 ∨ top = 0x80) :
    loadNucleus (oneSymbol top) = some (buildSymtab (oneSymbol top)) := by
  rw [loadNucleus, loadSegments_oneSymbol h, if_pos]
  rcases h with rfl | rfl
  · decide +kernel
  · decide +kernel

/-- The load leaves the file. -/
theorem oneSymbol_file {top : UInt8} (h : top = 0 ∨ top = 0x80) :
    HoldsFile (oneSymbol top) 281 (loadSegments (oneSymbol top)) := by
  rw [loadSegments_oneSymbol h]
  exact fun _ _ _ => rfl

/-- Its entry sizes are positive `int`s. -/
theorem oneSymbol_fits : EntsizesFit (oneSymbol 0) := by
  have hall : ∀ i < Ehdr.shnum (oneSymbol 0) tempBase,
      Shdr.entsize (oneSymbol 0) (shdrAt (oneSymbol 0) tempBase i) < 2 ^ 31 := by
    decide +kernel
  intro i hi
  exact ⟨hall i hi.1, hall _ ((oneSymbol_image (Or.inl rfl)).links i hi.1 hi.2.1).1⟩

/-- **The symbol image is faithful exactly where the entry sizes are `int`s**, those of the
symbol table and of the string table that it links to. The segments are not loaded over the
file, nor does the image reach it. -/
theorem loadNucleus_faithful_iff {file m img : Mem} {n : ℕ} (hload : loadNucleus m = some img)
    (hfile : HoldsFile file n (loadSegments m)) (h : NucleusImage file n) :
    Faithful file img ↔ EntsizesFit file := by
  unfold loadNucleus at hload
  split at hload
  · obtain rfl := Option.some.inj hload
    exact buildSymtab_faithful_iff h hfile
  · cases hload

/-- The file of one symbol, with entry sizes that are positive `int`s: its symbol table is
built faithfully. -/
theorem loadNucleus_faithful_iff_oneSymbol :
    Faithful (oneSymbol 0) (buildSymtab (oneSymbol 0)) :=
  (loadNucleus_faithful_iff (loadNucleus_oneSymbol (Or.inl rfl)) (oneSymbol_file (Or.inl rfl))
    (oneSymbol_image (Or.inl rfl))).2 oneSymbol_fits

/-- An entry size that is no positive `int` is not the one that `get_section` returns: the
size goes through an `int` pointer. -/
theorem not_loadNucleus_faithful :
    ¬ ∀ (file m img : Mem) (n : ℕ), loadNucleus m = some img →
      HoldsFile file n (loadSegments m) → NucleusImage file n → Faithful file img := by
  intro hall
  have hfits := (buildSymtab_faithful_iff (oneSymbol_image (Or.inr rfl)) fun _ _ _ => rfl).1
    (hall _ _ _ 281 (loadNucleus_oneSymbol (Or.inr rfl)) (oneSymbol_file (Or.inr rfl))
      (oneSymbol_image (Or.inr rfl)))
  have hfirst : FirstSymtab (oneSymbol 0x80) 1 :=
    ⟨by decide +kernel, by decide +kernel, by decide +kernel⟩
  have hent : Shdr.entsize (oneSymbol 0x80) (shdrAt (oneSymbol 0x80) tempBase 1) = 2 ^ 31 + 24 := by
    decide +kernel
  have hlt := (hfits 1 hfirst).1
  rw [hent] at hlt
  omega

end Hvf
