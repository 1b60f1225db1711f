/-
# The install archive is read as it was written

Every field of digits is read back (`mkhdr_spec`), and what is left of the
archive is always the bytes in use and the cards to come (`Reads`), so that each
round takes one file off its front, wherever the cards are cut.

The end test compares one character, and takes every name of ten characters that
begins with `T` for the trailer.  The archive is read whole if there is none
(`unloadArchive_iff`).
-/

import Hvf.Installer.Cpio
import Mathlib.Data.List.TakeWhile

namespace Hvf

/-! ### Digits -/

/-- Digit `j` of `val`, from the right. -/
def octDigit (val j : ℕ) : UInt8 := UInt8.ofNat (48 + val / 8 ^ j % 8)

/-- `storeoct` writes the `n` last digits of a field of zeros. -/
theorem storeoct_spec (n fuel : ℕ) (hdr : List UInt8) (pos val : ℕ) (hfuel : n ≤ fuel)
    (hpos : n ≤ pos) (hhdr : pos ≤ hdr.length) (hval : val < 8 ^ n)
    (hzeros : ∀ i, pos - n ≤ i → i < pos → hdr[i]? = some 48) :
    (storeoct fuel hdr pos val).length = hdr.length ∧
      (∀ j < n, (storeoct fuel hdr pos val)[pos - 1 - j]? = some (octDigit val j)) ∧
      ∀ i, i < pos - n ∨ pos ≤ i → (storeoct fuel hdr pos val)[i]? = hdr[i]? := by
  induction n generalizing fuel hdr pos val with
  | zero =>
    obtain rfl : val = 0 := by simpa using hval
    have hsame : storeoct fuel hdr pos 0 = hdr := by
      cases fuel with
      | zero => rfl
      | succ fuel => rw [storeoct, if_pos rfl]
    rw [hsame]
    exact ⟨rfl, fun j hj => absurd hj (Nat.not_lt_zero j), fun _ _ => rfl⟩
  | succ n ih =>
    cases fuel with
    | zero => omega
    | succ fuel =>
      by_cases hzero : val = 0
      · -- the digits that are left stay zeros
        subst hzero
        rw [storeoct, if_pos rfl]
        refine ⟨rfl, fun j hj => ?_, fun _ _ => rfl⟩
        rw [hzeros _ (by omega) (by omega), octDigit, Nat.zero_div]
        rfl
      · rw [storeoct, if_neg hzero]
        have hdiv : val / 8 < 8 ^ n := by
          rw [Nat.pow_succ] at hval
          omega
        obtain ⟨hlength, hdigits, hkept⟩ := ih fuel
          (hdr.set (pos - 1) (UInt8.ofNat (48 + val % 8))) (pos - 1) (val / 8) (by omega)
          (by omega) (by rw [List.length_set]; omega) hdiv fun i hge hlt => by
            rw [List.getElem?_set_ne (by omega)]
            exact hzeros i (by omega) (by omega)
        refine ⟨by rw [hlength, List.length_set], fun j hj => ?_, fun i hi => ?_⟩
        · cases j with
          | zero =>
            rw [hkept _ (Or.inr (by omega)), Nat.sub_zero, List.getElem?_set_self (by omega),
              octDigit,
              Nat.pow_zero, Nat.div_one]
          | succ j =>
            have hdigit := hdigits j (by omega)
            rw [octDigit, Nat.div_div_eq_div_mul, ← Nat.pow_succ'] at hdigit
            rw [octDigit, ← hdigit]
            congr 1
            omega
        · rw [hkept i (by omega), List.getElem?_set_ne (by omega)]

/-- **The octal digits read back**: `getnumber` gives the number the digits were made from,
modulo 2³². -/
theorem getnumber_eq {data : ℕ → UInt8} (val n i ret : ℕ)
    (hdigits : ∀ j < n, data (i + n - 1 - j) = octDigit val j) (hret : ret < 2 ^ 32) :
    getnumber data n i ret = (ret * 8 ^ n + val % 8 ^ n) % 2 ^ 32 := by
  induction n generalizing i ret with
  | zero =>
    rw [getnumber, Nat.pow_zero, Nat.mod_one, Nat.mul_one, Nat.add_zero, Nat.mod_eq_of_lt hret]
  | succ n ih =>
    have hfirst : data i = octDigit val n := by
      rw [← hdigits n (by omega)]
      congr 1
      omega
    have hdigit : (data i).toNat = 48 + val / 8 ^ n % 8 := by
      rw [hfirst, octDigit, UInt8.toNat_ofNat']
      omega
    have hnext : (ret * 8 + (2 ^ 32 + (data i).toNat - 48)) % 2 ^ 32 =
        (ret * 8 + val / 8 ^ n % 8) % 2 ^ 32 := by
      rw [hdigit]
      omega
    have hrest : ∀ j < n, data (i + 1 + n - 1 - j) = octDigit val j := by
      intro j hj
      rw [← hdigits j (by omega)]
      congr 1
      omega
    have hmod := ((Nat.mod_modEq (ret * 8 + val / 8 ^ n % 8) (2 ^ 32)).mul_right
      (8 ^ n)).add_right (val % 8 ^ n)
    have hvalue : (ret * 8 + val / 8 ^ n % 8) * 8 ^ n + val % 8 ^ n =
        ret * 8 ^ (n + 1) + val % 8 ^ (n + 1) := by
      rw [Nat.mod_pow_succ]
      ring
    rw [getnumber, hnext, ih _ _ hrest (Nat.mod_lt _ (by decide)), ← hvalue]
    exact hmod

/-- The header, and the two fields that are read back. -/
theorem mkhdr_spec {len filesize : ℕ} (hlen : len + 1 < 8 ^ 6) (hsize : filesize < 2 ^ 32) :
    (mkhdr len filesize).length = cpioHdrSize ∧
      (∀ j < 6, (mkhdr len filesize)[64 - j]? = some (octDigit (len + 1) j)) ∧
      ∀ j < 11, (mkhdr len filesize)[75 - j]? = some (octDigit filesize j) := by
  have hlen' : (len + 1) % 2 ^ 32 = len + 1 := Nat.mod_eq_of_lt (by omega)
  have hsize' : filesize % 2 ^ 32 = filesize := Nat.mod_eq_of_lt hsize
  unfold mkhdr
  dsimp only
  rw [hlen', hsize']
  generalize hhdr : (((((List.replicate cpioHdrSize (48 : UInt8)).set 1 55).set 3 55).set 5 55).set
    41 49) = hdr
  have hlength : hdr.length = 76 := by
    rw [← hhdr]
    rfl
  have hzeros : ∀ i, 59 ≤ i → i < 76 → hdr[i]? = some 48 := by
    intro i hge hlt
    rw [← hhdr, List.getElem?_set_ne (by omega), List.getElem?_set_ne (by omega),
      List.getElem?_set_ne (by omega), List.getElem?_set_ne (by omega),
      List.getElem?_replicate]
    exact if_pos hlt
  obtain ⟨hlength₁, hname, hkept₁⟩ := storeoct_spec 6 11 hdr 65 (len + 1) (by decide)
    (by decide) (by omega) hlen fun i hge hlt => hzeros i hge (by omega)
  obtain ⟨hlength₂, hfile, hkept₂⟩ := storeoct_spec 11 11
    (storeoct 11 hdr 65 (len + 1)) 76 filesize (by decide) (by decide) (by omega)
    (by omega) fun i hge hlt => by rw [hkept₁ i (Or.inr hge), hzeros i (by omega) hlt]
  refine ⟨by rw [hlength₂, hlength₁, hlength]; rfl, fun j hj => ?_, hfile⟩
  rw [hkept₂ _ (Or.inl (by omega)), hname j hj]

/-! ### Cards -/

/-- The cards hold the file and then zeros. -/
theorem cat_spec {fuel : ℕ} {f : List UInt8} (hfuel : f.length < fuel) :
    (∀ card ∈ cat fuel f, card.length = 80) ∧ f <+: (cat fuel f).flatten := by
  induction fuel generalizing f with
  | zero => omega
  | succ fuel ih =>
    rw [cat]
    by_cases hfull : (f.take 80).length = 80
    · have hlen : 80 ≤ f.length := by
        rw [List.length_take] at hfull
        omega
      obtain ⟨hcards, hprefix⟩ := ih (f := f.drop 80) (by rw [List.length_drop]; omega)
      simp only [hfull, ↓reduceIte, Nat.sub_self, List.replicate_zero, List.append_nil,
        show (80 : ℕ) ≠ 0 by decide, ne_eq, not_false_eq_true]
      refine ⟨fun card hcard => ?_, ?_⟩
      · rcases List.mem_cons.1 hcard with rfl | hcard
        · exact hfull
        · exact hcards card hcard
      · rw [List.flatten_cons]
        nth_rewrite 1 [← List.take_append_drop 80 f]
        exact (List.prefix_append_right_inj _).2 hprefix
    · have htake : f.take 80 = f := List.take_of_length_le (by
        rw [List.length_take] at hfull
        omega)
      rw [htake] at hfull ⊢
      simp only [hfull, ↓reduceIte]
      split
      · refine ⟨fun card hcard => ?_, ?_⟩
        · rw [List.mem_singleton.1 hcard, List.length_append, List.length_replicate]
          have : (f.take 80).length ≤ 80 := List.length_take_le _ _
          rw [htake] at this
          omega
        · rw [List.flatten_cons, List.append_assoc]
          exact List.prefix_append _ _
      · refine ⟨fun card hcard => absurd hcard List.not_mem_nil, ?_⟩
        rename_i hempty
        rw [List.length_eq_zero_iff.1 (not_not.1 hempty)]
        exact List.nil_prefix

/-! ### The reader -/

/-- **The bytes in use and the cards to come begin with `bytes`**, which is what is left of
the archive. -/
structure Reads (s : Reader) (bytes : List UInt8) : Prop where
  cards : ∀ card ∈ s.cards, card.length = 80
  used : ∀ i (hi : i < bytes.length), i < s.fill → s.buf i = bytes[i]
  rest : bytes.drop s.fill <+: s.cards.flatten

/-- One card more in the buffer, and what is to be read from there is the same. -/
theorem Reads.more {s : Reader} {bytes : List UInt8} (h : Reads s bytes) : Reads s.more bytes := by
  have hrest := h.rest
  unfold Reader.more Reader.readcard
  cases hcards : s.cards with
  | nil =>
    rw [hcards, List.flatten_nil, List.prefix_nil, List.drop_eq_nil_iff] at hrest
    dsimp only
    refine ⟨by simp [hcards], fun i hi _ => h.used i hi (by omega), ?_⟩
    dsimp only
    rw [List.drop_eq_nil_of_le (by omega)]
    exact List.nil_prefix
  | cons card cards =>
    have hcard : card.length = 80 := h.cards card (by rw [hcards]; exact List.mem_cons_self)
    rw [hcards, List.flatten_cons] at hrest
    refine ⟨fun card' hcard' => h.cards card' (by rw [hcards]; exact List.mem_cons_of_mem _ hcard'),
      fun i hi hlt => ?_, ?_⟩
    · dsimp only at hlt ⊢
      rw [memcpy]
      by_cases hold : i < s.fill
      · rw [if_neg (by omega), h.used i hi hold]
      · rw [if_pos (by omega), Nat.zero_add]
        have hi' : i - s.fill < (bytes.drop s.fill).length := by
          rw [List.length_drop]
          omega
        have hget := hrest.getElem hi'
        rw [List.getElem_append_left (by omega), List.getElem_drop] at hget
        rw [List.getD_eq_getElem?_getD, List.getElem?_eq_getElem (by omega), Option.getD_some,
          ← hget]
        congr 1
        omega
    · dsimp only
      have hdrop := hrest.drop 80
      rwa [List.drop_drop, List.drop_left' hcard] at hdrop

/-- Filling the buffer up leaves what is to be read, and ends with enough of it in the buffer.
-/
theorem Reads.fillTo {s : Reader} {bytes : List UInt8} (h : Reads s bytes) (need fuel : ℕ)
    (hfuel : need ≤ s.fill + fuel) :
    Reads (s.fillTo need fuel) bytes ∧ need ≤ (s.fillTo need fuel).fill := by
  induction fuel generalizing s with
  | zero => exact ⟨h, hfuel⟩
  | succ fuel ih =>
    rw [Reader.fillTo]
    split
    · exact ih h.more (by simp only [Reader.more]; omega)
    · rename_i hdone
      exact ⟨h, by omega⟩

/-- Moving on by bytes that are in the buffer drops them from what is to be read. -/
theorem Reads.advance {s : Reader} {bytes : List UInt8} (h : Reads s bytes) {n : ℕ}
    (hn : n ≤ s.fill) : Reads (s.advance n) (bytes.drop n) := by
  refine ⟨h.cards, fun i hi hlt => ?_, ?_⟩
  · simp only [Reader.advance] at hlt ⊢
    rw [List.length_drop] at hi
    rw [memcpy, if_pos (by omega), h.used _ (by omega) (by omega), List.getElem_drop]
    rfl
  · simp only [Reader.advance]
    rw [List.drop_drop, Nat.add_sub_cancel' hn]
    exact h.rest

/-- The header is in the buffer after one more card at most. -/
theorem Reads.header {s : Reader} {len size : ℕ} {bytes : List UInt8} (hlen : len + 1 < 8 ^ 6)
    (hsize : size < 2 ^ 32) (h : Reads s (mkhdr len size ++ bytes)) :
    ∃ s₁ : Reader, (if s.fill < cpioHdrSize then s.more else s) = s₁ ∧
      Reads s₁ (mkhdr len size ++ bytes) ∧ getnumber s₁.buf 6 59 0 = len + 1 ∧
      getnumber s₁.buf 11 65 0 = size := by
  obtain ⟨hlength, hname, hfile⟩ := mkhdr_spec hlen hsize
  rw [cpioHdrSize] at hlength ⊢
  refine ⟨_, rfl, ?_⟩
  have hfill : 76 ≤ (if s.fill < 76 then s.more else s).fill := by
    split
    · simp only [Reader.more]
      omega
    · omega
  have hreads : Reads (if s.fill < 76 then s.more else s) (mkhdr len size ++ bytes) := by
    split
    · exact h.more
    · exact h
  have hbuf : ∀ i, i < 76 → ∀ c, (mkhdr len size)[i]? = some c →
      (if s.fill < 76 then s.more else s).buf i = c := by
    intro i hi c hc
    obtain ⟨hi', hget⟩ := List.getElem?_eq_some_iff.1 hc
    rw [hreads.used i (by rw [List.length_append]; omega) (by omega),
      List.getElem_append_left hi', hget]
  refine ⟨hreads, ?_, ?_⟩
  · have hnumber := getnumber_eq (len + 1) 6 59 0
      (fun j hj => hbuf _ (by omega) _ (hname j hj)) (by decide)
    rw [hnumber]
    omega
  · have hnumber := getnumber_eq size 11 65 0
      (fun j hj => hbuf _ (by omega) _ (hfile j hj)) (by decide)
    rw [hnumber]
    omega

/-- A name with a NUL behind it, and none inside, is the string read at its place. -/
theorem stringAt_eq {buf : ℕ → UInt8} {name : List UInt8} {n i : ℕ} (hn : name.length < n)
    (hname : ∀ j (hj : j < name.length), buf (i + j) = name[j])
    (hend : buf (i + name.length) = 0) (hnul : 0 ∉ name) : stringAt buf n i = name := by
  induction name generalizing n i with
  | nil =>
    cases n with
    | zero => omega
    | succ n =>
      rw [stringAt]
      exact if_pos hend
  | cons c name ih =>
    cases n with
    | zero => omega
    | succ n =>
      have hc : buf i = c := hname 0 (Nat.succ_pos _)
      have hne : c ≠ 0 := fun h => hnul (h ▸ List.mem_cons_self)
      rw [List.length_cons] at hn hend
      have hrest : ∀ j (hj : j < name.length), buf (i + 1 + j) = name[j] := by
        intro j hj
        have hnext := hname (j + 1) (Nat.succ_lt_succ hj)
        rw [List.getElem_cons_succ] at hnext
        rw [← hnext]
        congr 1
        omega
      have hend' : buf (i + 1 + name.length) = 0 := by
        rw [← hend]
        congr 1
        omega
      rw [stringAt, hc, if_neg hne,
        ih (by omega) hrest hend' fun h => hnul (List.mem_cons_of_mem _ h)]

/-- The first byte of the string at a place is the byte there. -/
theorem stringAt_headD (buf : ℕ → UInt8) (n i : ℕ) : (stringAt buf (n + 1) i).headD 0 = buf i := by
  rw [stringAt]
  by_cases hnul : buf i = 0
  · rw [if_pos hnul, hnul]
    rfl
  · rw [if_neg hnul, List.headD_cons]

/-- The first byte of a file's name is the byte behind the header. -/
theorem Reader.name_headD (s : Reader) : s.name.headD 0 = s.buf 76 :=
  stringAt_headD s.buf 2097075 76

/-- The name is in the buffer. -/
theorem Reads.name_eq {s : Reader} {len size : ℕ} {name bytes : List UInt8} (hlen : len + 1 < 8 ^ 6)
    (hsize : size < 2 ^ 32) (hname : name.length + 1 < 8 ^ 6) (hnul : 0 ∉ name)
    (h : Reads s (mkhdr len size ++ (name ++ 0 :: bytes)))
    (hfill : name.length + 1 + cpioHdrSize ≤ s.fill) : s.name = name := by
  obtain ⟨hlength, _, _⟩ := mkhdr_spec hlen hsize
  rw [cpioHdrSize] at hlength hfill
  have hbuf : ∀ j (hj : j < (name ++ 0 :: bytes).length), j < name.length + 1 →
      s.buf (76 + j) = (name ++ 0 :: bytes)[j] := by
    intro j hj hlt
    rw [h.used (76 + j) (by rw [List.length_append]; omega) (by omega),
      List.getElem_append_right (by omega)]
    congr 1
    omega
  rw [Reader.name, cpioHdrSize]
  refine stringAt_eq (by omega) (fun j hj => ?_) ?_ hnul
  · rw [hbuf j (by rw [List.length_append]; omega) (by omega), List.getElem_append_left hj]
  · rw [hbuf name.length (by rw [List.length_append, List.length_cons]; omega) (by omega),
      List.getElem_append_right (Nat.le_refl _)]
    simp

/-! ### Files -/

/-- What a file is in the archive. -/
def ArchiveFile.contents : ArchiveFile → List UInt8
  | .text _ lrecl f => (textRecords lrecl f.length f).flatten
  | .bin _ f => f

/-- The name is a string that fits in the header, the contents are at most 1 MB, and
records are not empty. -/
structure ArchiveFile.Ok (file : ArchiveFile) : Prop where
  nul : 0 ∉ file.fn
  namesize : file.fn.length + 1 < 8 ^ 6
  filesize : file.contents.length ≤ 2 ^ 20
  lrecl : ∀ fn f, file ≠ .text fn 0 f

/-- What `unload_archive` should see of a file. -/
def ArchiveFile.unloaded (file : ArchiveFile) : Unloaded :=
  ⟨file.fn, archTable.find? fun te => te.arch = file.fn, file.contents⟩

/-- A line read is at most as long as the buffer given. -/
theorem fgets_length (n : ℕ) (f : List UInt8) : (fgets n f).1.length ≤ n := by
  induction n generalizing f with
  | zero => exact Nat.le_refl 0
  | succ n ih =>
    cases f with
    | nil => exact Nat.zero_le _
    | cons c f =>
      rw [fgets]
      split
      · exact Nat.succ_le_succ (Nat.zero_le _)
      · exact Nat.succ_le_succ (ih f)

/-- A record made of a line has the record length. -/
theorem textRecord_length {lrecl : ℕ} {data : List UInt8} (hdata : data.length ≤ lrecl) :
    (textRecord lrecl data).length = lrecl := by
  have htake : (data.takeWhile (· ≠ 0)).length ≤ data.length :=
    (List.takeWhile_prefix _).length_le
  rw [textRecord]
  generalize hl : (if (data.takeWhile (· ≠ 0)).length ≠ 0 ∧
    data.getD ((data.takeWhile (· ≠ 0)).length - 1) 0 ≠ 0 then
      (data.takeWhile (· ≠ 0)).length - 1 else (data.takeWhile (· ≠ 0)).length) = l
  have hle : l ≤ data.length := by
    rw [← hl]
    split <;> omega
  rw [List.length_append, List.length_take, List.length_replicate]
  omega

/-- Every record of a text file has the record length. -/
theorem textRecords_length {lrecl fuel : ℕ} {f record : List UInt8}
    (hrecord : record ∈ textRecords lrecl fuel f) : record.length = lrecl := by
  induction fuel generalizing f with
  | zero => exact absurd hrecord List.not_mem_nil
  | succ fuel ih =>
    rw [textRecords] at hrecord
    split at hrecord
    · exact absurd hrecord List.not_mem_nil
    · rcases List.mem_cons.1 hrecord with rfl | hrecord
      · exact textRecord_length (fgets_length lrecl f)
      · exact ih hrecord

/-- The pieces of a binary file are the file. -/
theorem binBuffers_flatten {fuel : ℕ} {f : List UInt8} (hfuel : f.length ≤ fuel) :
    (binBuffers fuel f).flatten = f := by
  induction fuel generalizing f with
  | zero =>
    rw [List.length_eq_zero_iff.1 (Nat.le_zero.1 hfuel)]
    rfl
  | succ fuel ih =>
    rw [binBuffers]
    split
    · rename_i hnil
      rw [hnil]
      rfl
    · rw [List.flatten_cons, ih (by rw [List.length_drop]; omega), List.take_append_drop]

/-- The pieces written of a file are its contents. -/
theorem ArchiveFile.buffers_flatten (file : ArchiveFile) :
    file.buffers.flatten = file.contents := by
  cases file with
  | text fn lrecl f => rfl
  | bin fn f => exact binBuffers_flatten (Nat.le_refl _)

/-- The length written into a file's header is the length of its contents. -/
theorem ArchiveFile.flen_eq (file : ArchiveFile) : file.flen = file.contents.length := by
  cases file with
  | text fn lrecl f =>
    have hlength : ∀ record ∈ textRecords lrecl f.length f, record.length = lrecl :=
      fun _ hrecord => textRecords_length hrecord
    rw [flen, contents, List.length_flatten, List.map_congr_left hlength, List.map_const',
      List.sum_replicate, smul_eq_mul, Nat.mul_comm]
  | bin fn f => rw [flen, contents, ← List.length_flatten, binBuffers_flatten (Nat.le_refl _)]

/-- The bytes of a file in the archive. -/
def ArchiveFile.bytes (file : ArchiveFile) : List UInt8 :=
  mkhdr file.fn.length file.contents.length ++ (file.fn ++ 0 :: file.contents)

/-- A file that can be archived becomes its header, its name and its contents with their
padding. -/
theorem ArchiveFile.write_eq {file : ArchiveFile} (h : file.Ok) : file.write = some file.bytes := by
  have hbytes : mkhdr file.fn.length file.flen ++ file.fn ++ [0] ++ file.buffers.flatten =
      file.bytes := by
    rw [file.flen_eq, file.buffers_flatten, bytes]
    simp
  rw [← hbytes]
  cases file with
  | text fn lrecl f =>
    cases lrecl with
    | zero => exact absurd rfl (h.lrecl fn f)
    | succ lrecl => rfl
  | bin fn f => rfl

/-- **The archive of such files** is what they become, one behind the other, and the trailer. -/
theorem mkarchive_eq {files : List ArchiveFile} (h : ∀ file ∈ files, file.Ok) :
    ∃ len, mkarchive files = some ((files.map ArchiveFile.bytes).flatten ++ mktail len) := by
  have hparts : files.mapM ArchiveFile.write = some (files.map ArchiveFile.bytes) := by
    induction files with
    | nil => rfl
    | cons file files ih =>
      rw [List.mapM_cons, ArchiveFile.write_eq (h file List.mem_cons_self),
        ih fun file hfile => h file (List.mem_cons_of_mem _ hfile)]
      rfl
  exact ⟨_, by rw [mkarchive, hparts]; rfl⟩

/-! ### `unload_archive` -/

/-- A name that the end test takes for `TRAILER!!!`. -/
def TakenForTrailer (fn : List UInt8) : Prop := fn.length = 10 ∧ fn.headD 0 = 84

/-- Whether a name passes for the trailer's is decided by its first character. -/
instance (fn : List UInt8) : Decidable (TakenForTrailer fn) :=
  inferInstanceAs (Decidable (_ ∧ _))

/-- The trailer's own name passes for it. -/
theorem trailer_taken : TakenForTrailer trailer := by decide

/-- The comparison with the trailer's name looks at the first character only: 84 is `T`. -/
theorem strncmp_trailer_iff (fn : List UInt8) : strncmp trailer fn 10 = 0 ↔ fn.headD 0 = 84 := by
  rw [strncmp_eq_zero_iff _ _ (by decide)]
  exact eq_comm

/-- No name in the table of archived files has a NUL in it. -/
theorem archTable_nul : ∀ te ∈ archTable, 0 ∉ te.arch := by decide +kernel

/-- The table is searched by name. -/
theorem archTable_find {name : List UInt8} (hnul : 0 ∉ name) :
    (archTable.find? fun te => strcmp name te.arch = 0) =
      archTable.find? fun te => te.arch = name := by
  refine List.find?_congr fun te hte => ?_
  rw [decide_eq_decide, strcmp_eq_zero_iff hnul (archTable_nul te hte)]
  exact eq_comm

section Unload

variable {σ : Type} (save : σ → ArchTable → List UInt8 → Option σ)

/-- The calls of `save_file` for the files of an archive: those it returns from,
and the one it dies with. -/
def unloadAll : σ → List Unloaded → List Unloaded × Option σ
  | disk, [] => ([], some disk)
  | disk, file :: files =>
      match saveUnloaded save disk file with
      | none => ([file], none)
      | some disk =>
          let (seen, disk) := unloadAll disk files
          (file :: seen, disk)

/-- **A round takes one file**, whatever follows it. -/
theorem unloadLoop_file {s : Reader} {file : ArchiveFile} {bytes : List UInt8} (hok : file.Ok)
    (h : Reads s (file.bytes ++ bytes)) (htrailer : ¬ TakenForTrailer file.fn) :
    ∃ s', Reads s' bytes ∧ ∀ fuel disk, unloadLoop save (fuel + 1) disk s =
      match saveUnloaded save disk file.unloaded with
      | none => some ([file.unloaded], none)
      | some disk =>
          (unloadLoop save fuel disk s').map fun (files, disk) =>
            (file.unloaded :: files, disk) := by
  have hname := hok.namesize
  have hfile := hok.filesize
  obtain ⟨hlength, _, _⟩ := mkhdr_spec hname (show file.contents.length < 2 ^ 32 by omega)
  rw [ArchiveFile.bytes, List.append_assoc, List.append_assoc, List.cons_append] at h
  obtain ⟨s₁, hs₁, hreads₁, hnamesize, hfilesize⟩ := h.header hname (by omega)
  -- the name is in the buffer
  obtain ⟨hreads₂, hfill₂⟩ := hreads₁.fillTo (file.fn.length + 1 + cpioHdrSize)
    (file.fn.length + 1 + cpioHdrSize) (by omega)
  have hfn := hreads₂.name_eq hname (by omega) hname hok.nul hfill₂
  -- behind it, the contents
  have hdrop : (mkhdr file.fn.length file.contents.length ++
      (file.fn ++ 0 :: (file.contents ++ bytes))).drop (cpioHdrSize + (file.fn.length + 1)) =
        file.contents ++ bytes := by
    rw [← List.drop_drop, List.drop_left' hlength, ← List.drop_drop, List.drop_left,
      List.drop_succ_cons, List.drop_zero]
  have hreads₃ := hreads₂.advance (n := cpioHdrSize + (file.fn.length + 1)) (by omega)
  rw [hdrop] at hreads₃
  obtain ⟨hreads₄, hfill₄⟩ := hreads₃.fillTo file.contents.length
    file.contents.length (by omega)
  have hcontents : (List.range file.contents.length).map (((s₁.fillTo (file.fn.length + 1 +
      cpioHdrSize) (file.fn.length + 1 + cpioHdrSize)).advance (cpioHdrSize +
        (file.fn.length + 1))).fillTo file.contents.length file.contents.length).buf =
          file.contents := by
    refine List.ext_getElem (by simp) fun i hi hi' => ?_
    rw [List.getElem_map, List.getElem_range, hreads₄.used i (by
      rw [List.length_append]; omega) (by omega), List.getElem_append_left hi']
  have hreads₅ := hreads₄.advance hfill₄
  rw [List.drop_left] at hreads₅
  refine ⟨_, hreads₅, fun fuel disk => ?_⟩
  have hend : ¬ (file.fn.length + 1 = 11 ∧ strncmp trailer file.fn 10 = 0) := by
    rw [strncmp_trailer_iff]
    exact fun h => htrailer ⟨by omega, h.2⟩
  rw [unloadLoop]
  simp only [hs₁, hnamesize, hfilesize, hfn]
  rw [if_neg hend, archTable_find hok.nul, hcontents]
  rfl

/-- A name that is taken for the trailer ends the loop, and so does the trailer. -/
theorem unloadLoop_trailer {s : Reader} {size : ℕ} {fn bytes : List UInt8} (hsize : size < 2 ^ 32)
    (htrailer : TakenForTrailer fn) (h : Reads s (mkhdr fn.length size ++ (fn ++ bytes)))
    (fuel : ℕ) (disk : σ) : unloadLoop save (fuel + 1) disk s = some ([], some disk) := by
  obtain ⟨hlen, hhead⟩ := htrailer
  obtain ⟨hlength, _, _⟩ := mkhdr_spec (show fn.length + 1 < 8 ^ 6 by omega) hsize
  obtain ⟨s₁, hs₁, hreads₁, hnamesize, _⟩ := h.header (by omega) hsize
  obtain ⟨hreads₂, hfill₂⟩ := hreads₁.fillTo (fn.length + 1 + cpioHdrSize)
    (fn.length + 1 + cpioHdrSize) (by omega)
  have hfirst : (s₁.fillTo (fn.length + 1 + cpioHdrSize) (fn.length + 1 + cpioHdrSize)).name.headD 0
      = 84 := by
    rw [cpioHdrSize] at hlength
    have hfill : 76 < fn.length + 1 + cpioHdrSize := by
      rw [cpioHdrSize]
      omega
    have hzero : 76 - (mkhdr fn.length size).length = 0 := by omega
    rw [Reader.name_headD, hreads₂.used 76 (by simp only [List.length_append]; omega)
      (hfill.trans_le hfill₂), List.getElem_append_right (by omega), ← hhead]
    simp only [hzero]
    cases fn with
    | nil => cases hlen
    | cons c fn => rfl
  rw [unloadLoop]
  simp only [hs₁, hnamesize]
  rw [if_pos ⟨by omega, (strncmp_trailer_iff _).2 hfirst⟩]

/-- What is read are the files before the first name that is taken for the
trailer. -/
theorem unloadLoop_files {files : List ArchiveFile} (hok : ∀ file ∈ files, file.Ok) (len : ℕ)
    {s : Reader} (h : Reads s ((files.map ArchiveFile.bytes).flatten ++ mktail len)) (disk : σ) :
    ∃ fuel, unloadLoop save fuel disk s = some (unloadAll save disk
      ((files.takeWhile fun file => ¬ TakenForTrailer file.fn).map ArchiveFile.unloaded)) := by
  induction files generalizing s disk with
  | nil =>
    rw [mktail, List.map_nil, List.flatten_nil, List.nil_append, List.append_assoc] at h
    exact ⟨1, unloadLoop_trailer save (by decide) trailer_taken h 0 disk⟩
  | cons file files ih =>
    rw [List.map_cons, List.flatten_cons, List.append_assoc] at h
    have hfile := hok file List.mem_cons_self
    by_cases htrailer : TakenForTrailer file.fn
    · rw [ArchiveFile.bytes, List.append_assoc, List.append_assoc] at h
      have hsize := hfile.filesize
      refine ⟨1, ?_⟩
      rw [unloadLoop_trailer save (by omega) htrailer h 0 disk,
        List.takeWhile_cons_of_neg (by simpa using htrailer)]
      rfl
    · obtain ⟨s', hreads, hround⟩ := unloadLoop_file save hfile h htrailer
      rw [List.takeWhile_cons_of_pos (by simpa using htrailer), List.map_cons, unloadAll]
      cases hsave : saveUnloaded save disk file.unloaded with
      | none =>
        refine ⟨1, ?_⟩
        rw [hround, hsave]
      | some disk' =>
        obtain ⟨fuel, hfuel⟩ := ih (fun file hmem => hok file (List.mem_cons_of_mem _ hmem)) hreads
          disk'
        refine ⟨fuel + 1, ?_⟩
        rw [hround, hsave]
        dsimp only
        rw [hfuel]
        rfl

/-- More rounds change nothing. -/
theorem unloadLoop_mono {fuel : ℕ} {disk : σ} {s : Reader} {r : List Unloaded × Option σ}
    (h : unloadLoop save fuel disk s = some r) (k : ℕ) :
    unloadLoop save (fuel + k) disk s = some r := by
  induction fuel generalizing disk s r with
  | zero => cases h
  | succ fuel ih =>
    rw [Nat.add_right_comm, unloadLoop]
    rw [unloadLoop] at h
    dsimp only at h ⊢
    generalize (if s.fill < cpioHdrSize then s.more else s) = s₁ at h ⊢
    split
    · rename_i hend
      rwa [if_pos hend] at h
    · rename_i hend
      rw [if_neg hend] at h
      split
      · rename_i hsave
        rwa [hsave] at h
      · rename_i disk' hsave
        rw [hsave] at h
        obtain ⟨r', hr', hr⟩ := Option.map_eq_some_iff.1 h
        rw [ih hr', Option.map_some, hr]

end Unload

/-- The files come back from the cards: whatever `save_file` does, it is called for
each of them that is in the table, in order and with the bytes of the file, and the
loop ends at the trailer. -/
def UnloadsAll (files : List ArchiveFile) (buf : ℕ → UInt8) (cards : List (List UInt8)) : Prop :=
  ∀ (σ : Type) (save : σ → ArchTable → List UInt8 → Option σ) (disk : σ), ∃ fuel,
    unloadArchive save fuel disk buf cards =
      some (unloadAll save disk (files.map ArchiveFile.unloaded))

/-- **The unload of an archive comes to its end**, with enough fuel, and saves its files one
after the other until one cannot be saved. -/
theorem unloadArchive_files {files : List ArchiveFile} (hok : ∀ file ∈ files, file.Ok) (len : ℕ)
    (buf : ℕ → UInt8) {σ : Type} (save : σ → ArchTable → List UInt8 → Option σ) (disk : σ) :
    ∃ fuel, unloadArchive save fuel disk buf
      (padcat [(files.map ArchiveFile.bytes).flatten ++ mktail len]) = some (unloadAll save disk
        ((files.takeWhile fun file => ¬ TakenForTrailer file.fn).map ArchiveFile.unloaded)) := by
  obtain ⟨hcards, hprefix⟩ := cat_spec (Nat.lt_succ_self
    ((files.map ArchiveFile.bytes).flatten ++ mktail len).length)
  refine unloadLoop_files save hok len ⟨?_, fun i _ hi => absurd hi (Nat.not_lt_zero i), ?_⟩ disk
  · rwa [padcat, List.flatMap_singleton]
  · rwa [padcat, List.flatMap_singleton, List.drop_zero]

/-- With a save that always works, all files are unloaded. -/
theorem unloadAll_unit (files : List Unloaded) :
    unloadAll (fun (disk : Unit) _ _ => some disk) () files = (files, some ()) := by
  induction files with
  | nil => rfl
  | cons file files ih =>
    have hsave : saveUnloaded (fun (disk : Unit) _ _ => some disk) () file = some () := by
      rw [saveUnloaded]
      split <;> rfl
    rw [unloadAll, hsave]
    dsimp only
    rw [ih]

/-- **An archive is read whole if and only if no file is taken for its trailer**: if no base
name has ten characters and begins with `T`. The length of the name and its first character
are all that the end test comes to. -/
theorem unloadArchive_iff {files : List ArchiveFile} (hok : ∀ file ∈ files, file.Ok)
    (buf : ℕ → UInt8) : ∃ archive, mkarchive files = some archive ∧
      (UnloadsAll files buf (padcat [archive]) ↔ ∀ file ∈ files, ¬ TakenForTrailer file.fn) := by
  obtain ⟨len, harchive⟩ := mkarchive_eq hok
  refine ⟨_, harchive, fun h => ?_, fun h σ save disk => ?_⟩
  · obtain ⟨fuel, hall⟩ := h Unit (fun disk _ _ => some disk) ()
    obtain ⟨fuel', hread⟩ := unloadArchive_files hok len buf
      (fun (disk : Unit) _ _ => some disk) ()
    have hall' := unloadLoop_mono _ hall fuel'
    have hread' := unloadLoop_mono _ hread fuel
    rw [Nat.add_comm, hall', unloadAll_unit, unloadAll_unit, Option.some.injEq, Prod.mk.injEq]
      at hread'
    have hlength := congrArg List.length hread'.1
    rw [List.length_map, List.length_map] at hlength
    have hwhole := (List.takeWhile_prefix
      (l := files) fun file => ¬ TakenForTrailer file.fn).eq_of_length hlength.symm
    simpa [List.takeWhile_eq_self_iff] using hwhole
  · obtain ⟨fuel, hread⟩ := unloadArchive_files hok len buf save disk
    refine ⟨fuel, ?_⟩
    rw [hread, List.takeWhile_eq_self_iff.2]
    simpa using h

/-- Two files, one of them not in the table, with headers and contents cut by the ends of
the cards: the archive is read whole. -/
theorem unloadArchive_iff_two : ∃ archive, mkarchive [.bin (ascii "hvf") (List.replicate 100 7),
    .text (ascii "Tail") 80 (ascii "a\nb\n")] = some archive ∧
      UnloadsAll [.bin (ascii "hvf") (List.replicate 100 7),
        .text (ascii "Tail") 80 (ascii "a\nb\n")] (fun _ => 0) (padcat [archive]) := by
  have hok : ∀ file ∈ [ArchiveFile.bin (ascii "hvf") (List.replicate 100 7),
      .text (ascii "Tail") 80 (ascii "a\nb\n")], file.Ok := by
    intro file hfile
    simp only [List.mem_cons, List.not_mem_nil, or_false] at hfile
    rcases hfile with rfl | rfl
    · exact ⟨by decide, by decide, by decide +kernel, fun fn f h => by cases h⟩
    · exact ⟨by decide, by decide, by decide +kernel, fun fn f h => by cases h⟩
  obtain ⟨archive, harchive, hiff⟩ := unloadArchive_iff hok fun _ => 0
  exact ⟨archive, harchive, hiff.2 (by decide)⟩

/-- `TestFile10`, of three bytes, is taken for the trailer, and the unload ends before it.
-/
theorem unloadArchive_testFile10 : ∃ archive,
    mkarchive [.bin (ascii "TestFile10") [1, 2, 3]] = some archive ∧
      ¬ UnloadsAll [.bin (ascii "TestFile10") [1, 2, 3]] (fun _ => 0) (padcat [archive]) := by
  refine ⟨_, rfl, fun h => ?_⟩
  obtain ⟨fuel, hall⟩ := h Unit (fun disk _ _ => some disk) ()
  have hread : unloadArchive (fun (disk : Unit) _ _ => some disk) 1 () (fun _ => 0)
      (padcat [(mkarchive [.bin (ascii "TestFile10") [1, 2, 3]]).getD []]) =
      some ([], some ()) := by
    decide +kernel
  have hall' := unloadLoop_mono _ hall 1
  have hread' := unloadLoop_mono _ hread fuel
  rw [unloadAll_unit, Nat.add_comm] at hall'
  cases hall'.symm.trans hread'

end Hvf
