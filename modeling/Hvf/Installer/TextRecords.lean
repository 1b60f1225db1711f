/-
# Text files as fixed records

`__text` of `build/mkarchive.c` reads at most `lrecl` characters at a time and takes the
last of them for the newline.  A line that is shorter than a record is the record
(`textRecords_lines`); one that fills it loses its last character and leaves its newline
behind for a record of its own, and a last line without newline loses its last
character too.  So the records are the lines exactly when no line that ends with a newline
fills a record and the last one, if nothing ends it, has a blank to lose
(`textRecorded_iff`).
-/

import Hvf.Installer.CpioRound

namespace Hvf

/-! ### Lines -/

/-- The lines that end with a newline. -/
def endedLines (f : List UInt8) : List (List UInt8) := (f.splitOn 10).dropLast

/-- What is behind the last newline. -/
def lastLine (f : List UInt8) : List UInt8 := (f.splitOn 10).getLastD []

/-- The lines of a text file; the last one may have no newline. -/
def textLines (f : List UInt8) : List (List UInt8) :=
  if lastLine f = [] then endedLines f else endedLines f ++ [lastLine f]

/-- The record that a line should be. -/
def padLine (lrecl : ℕ) (line : List UInt8) : List UInt8 :=
  line ++ List.replicate (lrecl - line.length) 32

/-- A file of lines that end with a newline, and a last one that does not. -/
def unsplit (ls : List (List UInt8)) (last : List UInt8) : List UInt8 :=
  ls.flatMap (· ++ [10]) ++ last

/-- A text is its first line, a newline, and the rest. -/
theorem unsplit_cons (line : List UInt8) (ls : List (List UInt8)) (last : List UInt8) :
    unsplit (line :: ls) last = line ++ 10 :: unsplit ls last := by
  rw [unsplit, unsplit, List.flatMap_cons, List.append_assoc, List.append_assoc]
  rfl

/-- Every file is made of lines. -/
theorem exists_unsplit (f : List UInt8) :
    ∃ ls last, f = unsplit ls last ∧ (∀ line ∈ ls, 10 ∉ line) ∧ 10 ∉ last := by
  induction f with
  | nil => exact ⟨[], [], rfl, fun _ h => absurd h List.not_mem_nil, List.not_mem_nil⟩
  | cons c f ih =>
    obtain ⟨ls, last, rfl, hls, hlast⟩ := ih
    by_cases hc : c = 10
    · refine ⟨[] :: ls, last, by rw [hc, unsplit_cons]; rfl, fun line hline => ?_, hlast⟩
      rcases List.mem_cons.1 hline with rfl | hline
      · exact List.not_mem_nil
      · exact hls line hline
    · have hnew : ∀ line : List UInt8, 10 ∉ line → 10 ∉ c :: line := fun line hline hmem =>
        (List.mem_cons.1 hmem).elim (fun h => hc h.symm) hline
      cases ls with
      | nil => exact ⟨[], c :: last, rfl, fun _ h => absurd h List.not_mem_nil, hnew last hlast⟩
      | cons line ls =>
        refine ⟨(c :: line) :: ls, last, by rw [unsplit_cons, unsplit_cons]; rfl,
          fun line' hline' => ?_, hlast⟩
        rcases List.mem_cons.1 hline' with rfl | hline'
        · exact hnew line (hls line List.mem_cons_self)
        · exact hls line' (List.mem_cons_of_mem _ hline')

/-- **Lines put together are split again** at their newlines, with the last piece behind them.
-/
theorem splitOn_unsplit {ls : List (List UInt8)} {last : List UInt8} (hls : ∀ line ∈ ls, 10 ∉ line)
    (hlast : 10 ∉ last) : (unsplit ls last).splitOn 10 = ls ++ [last] := by
  induction ls with
  | nil => exact List.splitOn_eq_singleton hlast
  | cons line ls ih =>
    rw [unsplit_cons, List.splitOn_append_cons_self,
      List.splitOn_eq_singleton (hls line List.mem_cons_self),
      ih fun line hline => hls line (List.mem_cons_of_mem _ hline)]
    rfl

/-- The lines that end in a newline are the ones put together. -/
theorem endedLines_unsplit {ls : List (List UInt8)} {last : List UInt8}
    (hls : ∀ line ∈ ls, 10 ∉ line) (hlast : 10 ∉ last) : endedLines (unsplit ls last) = ls := by
  rw [endedLines, splitOn_unsplit hls hlast, List.dropLast_concat]

/-- What is behind the last newline is the last piece. -/
theorem lastLine_unsplit {ls : List (List UInt8)} {last : List UInt8}
    (hls : ∀ line ∈ ls, 10 ∉ line) (hlast : 10 ∉ last) : lastLine (unsplit ls last) = last := by
  rw [lastLine, splitOn_unsplit hls hlast, List.getLastD_concat]

/-! ### Buffers -/

/-- A line that fits in the buffer with its newline. -/
theorem fgets_ended {line f : List UInt8} {n : ℕ} (hline : 10 ∉ line) (hn : line.length < n) :
    fgets n (line ++ 10 :: f) = (line ++ [10], f) := by
  induction line generalizing n with
  | nil =>
    cases n with
    | zero => omega
    | succ n => exact if_pos rfl
  | cons c line ih =>
    cases n with
    | zero => omega
    | succ n =>
      rw [List.mem_cons, not_or] at hline
      rw [List.cons_append, fgets, if_neg (Ne.symm hline.1), ih hline.2 (by simpa using hn)]
      rfl

/-- What fills the buffer, or all that is left. -/
theorem fgets_full {line f : List UInt8} {n : ℕ} (hline : 10 ∉ line)
    (hn : line.length = n ∨ line.length ≤ n ∧ f = []) : fgets n (line ++ f) = (line, f) := by
  induction line generalizing n with
  | nil =>
    rcases hn with rfl | ⟨-, rfl⟩
    · rfl
    · cases n <;> rfl
  | cons c line ih =>
    rw [List.length_cons] at hn
    cases n with
    | zero => omega
    | succ n =>
      rw [List.mem_cons, not_or] at hline
      rw [List.cons_append, fgets, if_neg (Ne.symm hline.1),
        ih hline.2 (hn.imp (by omega) (And.imp (by omega) id))]

/-- The last character of a buffer is dropped, whatever it is. -/
theorem textRecord_eq {lrecl : ℕ} {data : List UInt8} (hnul : 0 ∉ data) (hne : data ≠ []) :
    textRecord lrecl data = padLine lrecl data.dropLast := by
  have hlen : (data.takeWhile (· ≠ 0)).length = data.length := by
    rw [List.takeWhile_eq_self_iff.2 fun c hc => by simpa using fun h : c = 0 => hnul (h ▸ hc)]
  have hpos : data.length - 1 < data.length := Nat.sub_one_lt (List.length_pos_iff.2 hne).ne'
  have hlast : data.getD (data.length - 1) 0 ≠ 0 := by
    rw [List.getD_eq_getElem?_getD, List.getElem?_eq_getElem hpos, Option.getD_some]
    exact fun h => hnul (h ▸ List.getElem_mem hpos)
  rw [textRecord, hlen, if_pos ⟨(List.length_pos_iff.2 hne).ne', hlast⟩, padLine,
    ← List.dropLast_eq_take, List.length_dropLast]

/-- The records for a line that ends with a newline: one, or two if it fills the first. -/
def lineRecords (lrecl : ℕ) (line : List UInt8) : List (List UInt8) :=
  if line.length < lrecl then [padLine lrecl line]
  else [padLine lrecl line.dropLast, padLine lrecl []]

/-- **A line that ends with a newline** has its records in front of those of the rest. -/
theorem textRecords_ended {lrecl fuel : ℕ} {line f : List UInt8} (hline : 10 ∉ line)
    (hnul : 0 ∉ line) (hpos : 0 < lrecl) (hlen : line.length ≤ lrecl)
    (hfuel : (line ++ 10 :: f).length ≤ fuel) : ∃ fuel', f.length ≤ fuel' ∧
      textRecords lrecl fuel (line ++ 10 :: f) =
        lineRecords lrecl line ++ textRecords lrecl fuel' f := by
  have hne : line ++ 10 :: f ≠ [] := List.append_ne_nil_of_right_ne_nil _ (List.cons_ne_nil _ _)
  rw [List.length_append, List.length_cons] at hfuel
  obtain ⟨fuel, rfl⟩ : ∃ n, fuel = n + 1 := ⟨fuel - 1, by omega⟩
  rw [textRecords, if_neg hne, lineRecords]
  by_cases hshort : line.length < lrecl
  · have hnul' : 0 ∉ line ++ [10] := by simpa using hnul
    refine ⟨fuel, by omega, ?_⟩
    rw [if_pos hshort, fgets_ended hline hshort]
    dsimp only
    rw [textRecord_eq hnul' (List.append_ne_nil_of_right_ne_nil _ (List.cons_ne_nil _ _)),
      List.dropLast_concat]
    rfl
  · -- the newline is left for the next buffer
    have hfull : line ≠ [] := fun h => by
      rw [h, List.length_nil] at hshort
      omega
    have hfullpos : 0 < line.length := List.length_pos_iff.2 hfull
    obtain ⟨fuel, rfl⟩ : ∃ n, fuel = n + 1 := ⟨fuel - 1, by omega⟩
    refine ⟨fuel, by omega, ?_⟩
    rw [if_neg hshort, fgets_full hline (Or.inl (by omega))]
    dsimp only
    have hnewline : fgets lrecl ([] ++ 10 :: f) = ([] ++ [10], f) :=
      fgets_ended List.not_mem_nil hpos
    rw [List.nil_append, List.nil_append] at hnewline
    rw [textRecord_eq hnul hfull, textRecords, if_neg (List.cons_ne_nil _ _), hnewline]
    dsimp only
    rw [textRecord_eq (by decide) (List.cons_ne_nil _ _)]
    rfl

/-- **What is behind the last newline.** -/
theorem textRecords_last {lrecl fuel : ℕ} {last : List UInt8} (hlast : 10 ∉ last) (hnul : 0 ∉ last)
    (hlen : last.length ≤ lrecl) (hfuel : last.length ≤ fuel) : textRecords lrecl fuel last =
      if last = [] then [] else [padLine lrecl last.dropLast] := by
  cases fuel with
  | zero =>
    rw [if_pos (List.length_eq_zero_iff.1 (Nat.le_zero.1 hfuel))]
    rfl
  | succ fuel =>
    rw [textRecords]
    by_cases hne : last = []
    · rw [if_pos hne, if_pos hne]
    · have hget : fgets lrecl last = (last, []) := by
        have h := fgets_full (f := []) hlast (Or.inr ⟨hlen, rfl⟩)
        rwa [List.append_nil] at h
      have hdone : textRecords lrecl fuel [] = [] := by
        cases fuel with
        | zero => rfl
        | succ fuel => exact if_pos rfl
      rw [if_neg hne, if_neg hne, hget]
      dsimp only
      rw [textRecord_eq hnul hne, hdone]

/-- **The records of a file,** line by line. -/
theorem textRecords_lines {lrecl fuel : ℕ} {ls : List (List UInt8)} {last : List UInt8}
    (hls : ∀ line ∈ ls, 10 ∉ line ∧ 0 ∉ line ∧ line.length ≤ lrecl) (hlast : 10 ∉ last)
    (hnul : 0 ∉ last) (hpos : 0 < lrecl) (hlen : last.length ≤ lrecl)
    (hfuel : (unsplit ls last).length ≤ fuel) : textRecords lrecl fuel (unsplit ls last) =
      ls.flatMap (lineRecords lrecl) ++
        if last = [] then [] else [padLine lrecl last.dropLast] := by
  induction ls generalizing fuel with
  | nil => exact textRecords_last hlast hnul hlen hfuel
  | cons line ls ih =>
    obtain ⟨hline, hnulLine, hlenLine⟩ := hls line List.mem_cons_self
    rw [unsplit_cons] at hfuel ⊢
    obtain ⟨fuel', hfuel', hrecords⟩ := textRecords_ended hline hnulLine hpos hlenLine hfuel
    rw [hrecords, ih (fun line hmem => hls line (List.mem_cons_of_mem _ hmem)) hfuel',
      List.flatMap_cons, List.append_assoc]

/-- A line is at least one record, and exactly one if it is shorter than the record length. -/
theorem length_lineRecords (lrecl : ℕ) (line : List UInt8) : 1 ≤ (lineRecords lrecl line).length ∧
    ((lineRecords lrecl line).length = 1 ↔ line.length < lrecl) := by
  rw [lineRecords]
  by_cases hshort : line.length < lrecl
  · rw [if_pos hshort]
    exact ⟨le_rfl, iff_of_true rfl hshort⟩
  · rw [if_neg hshort]
    exact ⟨one_le_two, iff_of_false (Nat.succ_ne_self 1) hshort⟩

/-- There are as many records as lines only if no line has two. -/
theorem flatMap_lineRecords {lrecl : ℕ} {ls : List (List UInt8)} :
    (ls.flatMap (lineRecords lrecl)).length = ls.length ↔ ∀ line ∈ ls, line.length < lrecl := by
  have hmore : ∀ ls : List (List UInt8), ls.length ≤ (ls.flatMap (lineRecords lrecl)).length := by
    intro ls
    induction ls with
    | nil => exact Nat.zero_le _
    | cons line ls ih =>
      have hline := (length_lineRecords lrecl line).1
      rw [List.flatMap_cons, List.length_append, List.length_cons]
      omega
  induction ls with
  | nil => exact iff_of_true rfl fun _ h => absurd h List.not_mem_nil
  | cons line ls ih =>
    obtain ⟨hone, hshort⟩ := length_lineRecords lrecl line
    have hrest := hmore ls
    rw [List.flatMap_cons, List.length_append, List.length_cons, List.forall_mem_cons]
    refine ⟨fun h => ⟨hshort.1 (by omega), ih.1 (by omega)⟩, fun h => ?_⟩
    rw [hshort.2 h.1, ih.2 h.2, Nat.add_comm]

/-- Where every line is short enough, each line is its record. -/
theorem flatMap_lineRecords_eq {lrecl : ℕ} {ls : List (List UInt8)}
    (h : ∀ line ∈ ls, line.length < lrecl) :
    ls.flatMap (lineRecords lrecl) = ls.map (padLine lrecl) := by
  induction ls with
  | nil => rfl
  | cons line ls ih =>
    rw [List.flatMap_cons, List.map_cons,
      ih fun line hline => h line (List.mem_cons_of_mem _ hline), lineRecords,
      if_pos (h line List.mem_cons_self)]
    rfl

/-- A line whose last character is lost is padded to the same record if that is a blank. -/
theorem padLine_dropLast_iff {lrecl : ℕ} {line : List UInt8} (hne : line ≠ [])
    (hlen : line.length ≤ lrecl) :
    padLine lrecl line.dropLast = padLine lrecl line ↔ line.getLast hne = 32 := by
  have hpos := List.length_pos_iff.2 hne
  have hblanks : lrecl - line.dropLast.length = lrecl - line.length + 1 := by
    rw [List.length_dropLast]
    omega
  have hline : padLine lrecl line =
      line.dropLast ++ line.getLast hne :: List.replicate (lrecl - line.length) 32 := by
    rw [padLine]
    nth_rewrite 1 [← List.dropLast_append_getLast hne]
    rw [List.append_assoc]
    rfl
  rw [hline, padLine, hblanks, List.replicate_succ, List.append_cancel_left_eq, List.cons.injEq]
  exact ⟨fun h => h.1.symm, fun h => ⟨h.symm, rfl⟩⟩

/-! ### The header -/

/-- The size in the header, whatever the name. -/
theorem getnumber_mkhdr (len filesize : ℕ) {hdr : List UInt8} (hhdr : mkhdr len filesize <+: hdr) :
    getnumber (fun i => hdr.getD i 0) 11 65 0 = filesize % 2 ^ 32 := by
  have hlen : (len + 1) % 2 ^ 32 < 8 ^ 11 := (Nat.mod_lt _ (by decide)).trans (by decide)
  have hsize : filesize % 2 ^ 32 < 8 ^ 11 := (Nat.mod_lt _ (by decide)).trans (by decide)
  have hdigits : ∀ j < 11,
      (mkhdr len filesize)[75 - j]? = some (octDigit (filesize % 2 ^ 32) j) := by
    unfold mkhdr
    dsimp only
    generalize hbase : (((((List.replicate cpioHdrSize (48 : UInt8)).set 1 55).set 3 55).set 5
      55).set 41 49) = base
    have hlength : base.length = 76 := by
      rw [← hbase]
      rfl
    have hzeros : ∀ i, 42 ≤ i → i < 76 → base[i]? = some 48 := by
      intro i hge hlt
      rw [← hbase, List.getElem?_set_ne (by omega), List.getElem?_set_ne (by omega),
        List.getElem?_set_ne (by omega), List.getElem?_set_ne (by omega),
        List.getElem?_replicate]
      exact if_pos hlt
    -- the length of the name stays in front of the field, however large it is
    obtain ⟨hlength₁, -, hkept⟩ := storeoct_spec 11 11 base 65 ((len + 1) % 2 ^ 32) (by decide)
      (by decide) (by omega) hlen fun i hge hlt => hzeros i (by omega) (by omega)
    obtain ⟨-, hfile, -⟩ := storeoct_spec 11 11 (storeoct 11 base 65 ((len + 1) % 2 ^ 32)) 76
      (filesize % 2 ^ 32) (by decide) (by decide) (by omega) hsize fun i hge hlt => by
        rw [hkept i (Or.inr hge), hzeros i (by omega) hlt]
    exact hfile
  have hnumber : getnumber (fun i => hdr.getD i 0) 11 65 0 =
      (0 * 8 ^ 11 + filesize % 2 ^ 32 % 8 ^ 11) % 2 ^ 32 :=
    getnumber_eq (filesize % 2 ^ 32) 11 65 0 (fun j hj => ?_) (by decide)
  · omega
  · obtain ⟨tail, rfl⟩ := hhdr
    obtain ⟨hi, hdigit⟩ := List.getElem?_eq_some_iff.1 (hdigits j hj)
    have hpos : 65 + 11 - 1 - j = 75 - j := by omega
    rw [hpos, List.getD_eq_getElem?_getD, List.getElem?_append_left hi,
      List.getElem?_eq_getElem hi, Option.getD_some, hdigit]

/-! ### The result -/

/-- What `__text` is to make of a text file: its lines, padded with blanks, behind a header
with the length of all of them. -/
structure TextRecorded (fn : List UInt8) (lrecl : ℕ) (f : List UInt8) : Prop where
  written : ∃ out, (ArchiveFile.text fn lrecl f).write = some out ∧
    getnumber (fun i => out.getD i 0) 11 65 0 = lrecl * (textLines f).length
  records : (ArchiveFile.text fn lrecl f).buffers = (textLines f).map (padLine lrecl)

/-- No line with a newline fills a record, a last one without newline ends with a blank, and
the header can hold the length. -/
structure TextFits (lrecl : ℕ) (f : List UInt8) : Prop where
  pos : 0 < lrecl
  ended : ∀ line ∈ endedLines f, line.length < lrecl
  last : ∀ hne : lastLine f ≠ [], (lastLine f).getLast hne = 32
  size : lrecl * (textLines f).length < 2 ^ 32

/-- A line of a text is one that ends in a newline, or what is behind the last one. -/
theorem mem_textLines {f line : List UInt8} :
    line ∈ textLines f ↔ line ∈ endedLines f ∨ lastLine f ≠ [] ∧ line = lastLine f := by
  rw [textLines]
  by_cases hlast : lastLine f = []
  · rw [if_pos hlast]
    exact ⟨Or.inl, fun h => h.resolve_right fun h => h.1 hlast⟩
  · rw [if_neg hlast, List.mem_append, List.mem_singleton]
    exact or_congr Iff.rfl ⟨fun h => ⟨hlast, h⟩, And.right⟩

/-- What `__text` writes, and the size in its header. -/
theorem text_write (fn f : List UInt8) {lrecl : ℕ} (hpos : 0 < lrecl) :
    ∃ out, (ArchiveFile.text fn lrecl f).write = some out ∧
      getnumber (fun i => out.getD i 0) 11 65 0 =
        lrecl * (ArchiveFile.text fn lrecl f).buffers.length % 2 ^ 32 := by
  obtain ⟨lrecl, rfl⟩ : ∃ n, lrecl = n + 1 := ⟨lrecl - 1, by omega⟩
  refine ⟨_, rfl, getnumber_mkhdr fn.length _ ?_⟩
  rw [List.append_assoc, List.append_assoc]
  exact List.prefix_append _ _

/-- **When the records are the lines.** -/
theorem records_iff (fn : List UInt8) {f : List UInt8} {lrecl : ℕ} (hpos : 0 < lrecl) (hnul : 0 ∉ f)
    (hlines : ∀ line ∈ textLines f, line.length ≤ lrecl) :
    (ArchiveFile.text fn lrecl f).buffers = (textLines f).map (padLine lrecl) ↔
      (∀ line ∈ endedLines f, line.length < lrecl) ∧
        ∀ hne : lastLine f ≠ [], (lastLine f).getLast hne = 32 := by
  obtain ⟨ls, last, hf, hls, hlast⟩ := exists_unsplit f
  have hended : endedLines f = ls := by rw [hf, endedLines_unsplit hls hlast]
  have hbehind : lastLine f = last := by rw [hf, lastLine_unsplit hls hlast]
  have hnulLine : ∀ line ∈ ls, 0 ∉ line := fun line hline hmem => hnul (by
    rw [hf, unsplit]
    exact List.mem_append_left _ (List.mem_flatMap.2 ⟨line, hline, List.mem_append_left _ hmem⟩))
  have hnulLast : 0 ∉ last := fun hmem => hnul (by
    rw [hf, unsplit]
    exact List.mem_append_right _ hmem)
  have hlenLine : ∀ line ∈ ls, line.length ≤ lrecl := fun line hline =>
    hlines line (mem_textLines.2 (Or.inl (hended ▸ hline)))
  have hlenLast : last.length ≤ lrecl := by
    by_cases hne : last = []
    · rw [hne]
      exact Nat.zero_le _
    · exact hlines last (mem_textLines.2 (Or.inr ⟨by rwa [hbehind], hbehind.symm⟩))
  have hrecords : (ArchiveFile.text fn lrecl f).buffers =
      ls.flatMap (lineRecords lrecl) ++
        if last = [] then [] else [padLine lrecl last.dropLast] := by
    rw [hf]
    exact textRecords_lines (fun line hline => ⟨hls line hline, hnulLine line hline,
      hlenLine line hline⟩) hlast hnulLast hpos hlenLast le_rfl
  rw [hrecords, textLines, hended, hbehind]
  by_cases hne : last = []
  · rw [if_pos hne, if_pos hne, List.append_nil]
    constructor
    · intro h
      have hcount := congrArg List.length h
      rw [List.length_map] at hcount
      exact ⟨flatMap_lineRecords.1 hcount, fun h => absurd hne h⟩
    · intro h
      exact flatMap_lineRecords_eq h.1
  · rw [if_neg hne, if_neg hne, List.map_append, List.map_singleton]
    constructor
    · intro h
      have hcount := congrArg List.length h
      rw [List.length_append, List.length_append, List.length_map, List.length_singleton,
        List.length_singleton] at hcount
      have hshort := flatMap_lineRecords.1 (Nat.add_right_cancel hcount)
      rw [flatMap_lineRecords_eq hshort, List.append_cancel_left_eq] at h
      exact ⟨hshort, fun _ => (padLine_dropLast_iff hne hlenLast).1 (List.singleton_inj.1 h)⟩
    · rintro ⟨hshort, hblank⟩
      rw [flatMap_lineRecords_eq hshort, (padLine_dropLast_iff hne hlenLast).2 (hblank hne)]

/-- **Exactly which text files become their lines**, each padded to the record length: every
line that is ended by a newline is shorter than a record, and the last line, if none ends
it, loses its last character, so it must be a blank. -/
theorem textRecorded_iff (fn : List UInt8) (lrecl : ℕ) (f : List UInt8) (hnul : 0 ∉ f)
    (hlines : ∀ line ∈ textLines f, line.length ≤ lrecl) :
    TextRecorded fn lrecl f ↔ TextFits lrecl f := by
  constructor
  · rintro ⟨⟨out, hout, hsize⟩, hrecords⟩
    have hpos : 0 < lrecl := Nat.pos_of_ne_zero fun h => by
      rw [h] at hout
      cases hout
    obtain ⟨hended, hlast⟩ := (records_iff fn hpos hnul hlines).1 hrecords
    obtain ⟨out', hout', hsize'⟩ := text_write fn f hpos
    obtain rfl := Option.some.inj (hout.symm.trans hout')
    rw [hsize, hrecords, List.length_map] at hsize'
    exact ⟨hpos, hended, hlast, hsize' ▸ Nat.mod_lt _ (by decide)⟩
  · rintro ⟨hpos, hended, hlast, hsize⟩
    have hrecords := (records_iff fn hpos hnul hlines).2 ⟨hended, hlast⟩
    obtain ⟨out, hout, hnumber⟩ := text_write fn f hpos
    rw [hrecords, List.length_map, Nat.mod_eq_of_lt hsize] at hnumber
    exact ⟨⟨out, hout, hnumber⟩, hrecords⟩

/-- The lines `ABC` and `D` in records of four: two records. -/
theorem textRecorded_iff_two : TextRecorded [104] 4 [65, 66, 67, 10, 68, 10] :=
  (textRecorded_iff [104] 4 [65, 66, 67, 10, 68, 10] (by decide) (by decide)).2
    ⟨by decide, by decide, by decide, by decide⟩

/-- The line `AB` without a newline becomes the record `A`: the last character is taken for
the newline. -/
theorem not_textRecorded : ¬ ∀ (fn : List UInt8) (lrecl : ℕ) (f : List UInt8), 0 ∉ f →
    (∀ line ∈ textLines f, line.length ≤ lrecl) → TextRecorded fn lrecl f := fun h =>
  absurd (h [104] 4 [65, 66] (by decide) (by decide)).records (by decide)

end Hvf
