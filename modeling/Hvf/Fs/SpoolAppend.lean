/-
# Appending to a spool file

`spool_append_rec` begins in the last page if the two bytes of the length fit
there and goes on in new pages.  A new page that gets more data is filled from
`buf-copied+2` where the next data is at `buf+copied-2`; the two are the same if
only the length was copied before.  So a record is stored as it was given if
its data is not cut by the end of a page (`Unsplit`).
-/

import Hvf.Fs.SpoolFile

namespace Hvf

open PagedLog

/-- The record that `spool_append_rec` is given. -/
def recordOf (buf : ℤ → UInt8) (len : ℕ) : List UInt8 :=
  (List.range len).map fun i : ℕ => buf (i : ℤ)

/-- The record made of a buffer has the length given. -/
theorem length_recordOf (buf : ℤ → UInt8) (len : ℕ) : (recordOf buf len).length = len := by
  rw [recordOf, List.length_map, List.length_range]

/-- The bytes of the record that go into the last page. -/
def lastCopied (f : SpoolFile) (len : ℕ) : ℕ :=
  if f.pages ≠ 0 ∧ f.lrecoff + 2 ≤ 4080 then min (len + 2) (4080 - f.lrecoff) else 0

/-- The new pages that the record needs. -/
def pagesNeeded (f : SpoolFile) (len : ℕ) : ℕ := (len + 2 - lastCopied f len + 4079) / 4080

/-- The data lies in one page: the rest of the last one, or a new one, with or
without the length before it. -/
def Unsplit (f : SpoolFile) (len : ℕ) : Prop :=
  lastCopied f len = len + 2 ∨ lastCopied f len ≤ 2 ∧ len + 2 - lastCopied f len ≤ 4080

/-! ### Pages with a record -/

/-- A length stored in the two bytes of a record head is read back, if it fits them. -/
theorem recLen_setRecLen (data : ℕ → UInt8) (off : ℕ) {len : ℕ} (hlen : len < 65536) :
    recLen (setRecLen data off len) off = len := by
  have hne : off ≠ off + 1 := by omega
  rw [recLen, setRecLen, Function.update_of_ne hne, Function.update_self, Function.update_self,
    UInt8.toNat_ofNat', UInt8.toNat_ofNat']
  omega

/-- A page with a length and the first `n` data bytes written at `off`. -/
theorem recordPage_spec (data : ℕ → UInt8) (off : ℕ) {len : ℕ} (hlen : len < 65536)
    (src : ℕ → UInt8) (n : ℕ) :
    recLen (memcpy (setRecLen data off len) (off + 2) src 0 n) off = len ∧
      (∀ i < n, memcpy (setRecLen data off len) (off + 2) src 0 n (off + 2 + i) = src i) ∧
      ∀ i < off, memcpy (setRecLen data off len) (off + 2) src 0 n i = data i := by
  refine ⟨?_, fun i hi => ?_, fun i hi => ?_⟩
  · rw [recLen, memcpy, if_neg (by omega), memcpy, if_neg (by omega), ← recLen,
      recLen_setRecLen data off hlen]
  · rw [memcpy, if_pos (by omega)]
    congr 1
    omega
  · rw [memcpy, if_neg (by omega), setRecLen, Function.update_of_ne (by omega),
      Function.update_of_ne (by omega)]

/-- No page is taken once all bytes of the record are in place. -/
theorem newPages_done (buf : ℤ → UInt8) (len : ℕ) (supply : List (Option SpoolPage)) (loff : ℕ)
    (pages : List SpoolPage) :
    newPages buf len supply (len + 2) loff pages = .ok (pages, loff) := by
  cases supply with
  | nil => rw [newPages, if_pos rfl]
  | cons page supply => cases page <;> rw [newPages, if_pos rfl]

/-- A page taken is filled as far as the record goes, and the loop goes on with what is left. -/
theorem newPages_cons {buf : ℤ → UInt8} {len copied : ℕ} (hne : len + 2 ≠ copied)
    (spage : SpoolPage) (supply : List (Option SpoolPage)) (loff : ℕ) (pages : List SpoolPage) :
    newPages buf len (some spage :: supply) copied loff pages =
      newPages buf len supply (copied + (fillNewPage buf len copied spage).2)
        (fillNewPage buf len copied spage).2 (pages ++ [(fillNewPage buf len copied spage).1]) := by
  rw [newPages, if_neg hne]

/-- With one page to go, the loop takes it and is done, or fails. -/
theorem newPages_one (buf : ℤ → UInt8) (len copied : ℕ) (hne : len + 2 ≠ copied)
    (hone : ∀ spage, copied + (fillNewPage buf len copied spage).2 = len + 2)
    (supply : List (Option SpoolPage)) (loff : ℕ) (pages : List SpoolPage) :
    (∃ spage, newPages buf len supply copied loff pages =
      .ok (pages ++ [(fillNewPage buf len copied spage).1], (fillNewPage buf len copied spage).2)) ∨
    newPages buf len supply copied loff pages = .error pages := by
  cases supply with
  | nil => exact Or.inr (by rw [newPages, if_neg hne])
  | cons page supply =>
    cases page with
    | none => exact Or.inr (by rw [newPages, if_neg hne])
    | some spage =>
      refine Or.inl ⟨spage, ?_⟩
      rw [newPages_cons hne, hone spage, newPages_done]

/-- If one of the pages needed is not to be had, the loop fails. -/
theorem newPages_error (buf : ℤ → UInt8) {len : ℕ} {supply : List (Option SpoolPage)}
    {copied : ℕ} (loff : ℕ) (pages : List SpoolPage) (hle : copied ≤ len + 2)
    (h : ∃ i < (len + 2 - copied + 4079) / 4080, ∀ spage, supply[i]? ≠ some (some spage)) :
    ∃ pages', newPages buf len supply copied loff pages = .error pages' := by
  induction supply generalizing copied loff pages with
  | nil =>
    obtain ⟨i, hi, _⟩ := h
    exact ⟨pages, by rw [newPages, if_neg (by omega)]⟩
  | cons page supply ih =>
    obtain ⟨i, hi, hnone⟩ := h
    cases page with
    | none => exact ⟨pages, by rw [newPages, if_neg (by omega)]⟩
    | some spage =>
      rw [newPages_cons (by omega)]
      cases i with
      | zero => exact absurd rfl (hnone spage)
      | succ i =>
        have hfilled : (fillNewPage buf len copied spage).2 = min (len + 2 - copied) 4080 := by
          unfold fillNewPage
          split
          · simp only [spoolDataSize_eq]
            omega
          · simp only [spoolDataSize_eq]
        refine ih _ _ (by omega) ⟨i, by omega, fun spage' => ?_⟩
        have := hnone spage'
        rwa [List.getElem?_cons_succ] at this

/-! ### The last page -/

/-- The page count says whether the list is empty. -/
theorem SpoolInv.pages_ne_zero {f : SpoolFile} {recs : List (List UInt8)} (h : SpoolInv f recs) :
    f.pages ≠ 0 ↔ f.list ≠ [] := by
  rw [h.pages_eq, Ne, List.length_eq_zero_iff]

/-- What `spool_append_rec` does in the last page. -/
theorem fillLastPage_cases {f : SpoolFile} {recs : List (List UInt8)} (h : SpoolInv f recs)
    (buf : ℤ → UInt8) (len : ℕ) :
    (lastCopied f len = 0 ∧ f.fileEnd = 4080 * f.list.length ∧
      fillLastPage f buf len = (f.list, 0, 0)) ∨
    ∃ (init : List SpoolPage) (last : SpoolPage) (n : ℕ), f.list = init ++ [last] ∧
      f.lrecoff + 2 ≤ 4080 ∧ n = min len (4078 - f.lrecoff) ∧ lastCopied f len = 2 + n ∧
      f.fileEnd = 4080 * init.length + f.lrecoff ∧
      fillLastPage f buf len = (init ++ [⟨last.addr, memcpy (setRecLen last.data f.lrecoff len)
        (f.lrecoff + 2) (fun i => buf i) 0 n⟩], 2 + n, f.lrecoff + (2 + n)) := by
  by_cases hlast : f.pages ≠ 0 ∧ f.lrecoff + 2 ≤ 4080
  · have hne := h.pages_ne_zero.1 hlast.1
    obtain ⟨init, last, hlist⟩ := (List.eq_nil_or_concat' f.list).resolve_left hne
    refine Or.inr ⟨init, last, min len (4078 - f.lrecoff), hlist, hlast.2, rfl, ?_, ?_, ?_⟩
    · rw [lastCopied, if_pos hlast]
      omega
    · rw [SpoolFile.fileEnd_of_ne_nil hne, hlist, List.length_append, List.length_singleton,
        Nat.add_sub_cancel]
    · rw [fillLastPage, spoolDataSize_eq]
      dsimp only
      rw [if_pos ⟨hlast.1, by omega⟩, hlist, List.modifyLast_concat,
        show 4080 - f.lrecoff - 2 = 4078 - f.lrecoff by omega]
  · refine Or.inl ⟨by rw [lastCopied, if_neg hlast], ?_, ?_⟩
    · by_cases hne : f.list = []
      · rw [SpoolFile.fileEnd_of_nil hne, hne]
        rfl
      · have hfull : f.lrecoff = 4080 := by
          have hoffsets := h.offsets hne
          have heven := h.lrecoff_even
          have hover : ¬ f.lrecoff + 2 ≤ 4080 := fun hfits => hlast ⟨h.pages_ne_zero.2 hne, hfits⟩
          omega
        have := List.length_pos_of_ne_nil hne
        rw [SpoolFile.fileEnd_of_ne_nil hne, hfull]
        omega
    · rw [fillLastPage, spoolDataSize_eq]
      dsimp only
      rw [if_neg fun hif => hlast ⟨hif.1, by omega⟩]

/-- The bytes of a last page. -/
theorem fileByte_concat (init : List SpoolPage) (last : SpoolPage) {i : ℕ} (hi : i < 4080) :
    fileByte (init ++ [last]) (4080 * init.length + i) = last.data i := by
  rw [fileByte_append_add, fileByte_head hi]

/-- The last page is changed only behind the last record. -/
theorem fillLastPage_fileByte {f : SpoolFile} {recs : List (List UInt8)} (h : SpoolInv f recs)
    (buf : ℤ → UInt8) {len : ℕ} (hlen : len < 65536) :
    (fillLastPage f buf len).1.length = f.list.length ∧
      ∀ i < f.fileEnd, fileByte (fillLastPage f buf len).1 i = fileByte f.list i := by
  rcases fillLastPage_cases h buf len with
    ⟨_, _, hfill⟩ | ⟨init, last, n, hlist, hoff, _, _, hend, hfill⟩
  · rw [hfill]
    exact ⟨rfl, fun _ _ => rfl⟩
  · rw [hfill, hlist]
    refine ⟨by simp, fun i hi => ?_⟩
    by_cases hinit : i < 4080 * init.length
    · rw [fileByte_append_of_lt _ hinit, fileByte_append_of_lt _ hinit]
    · obtain ⟨j, rfl⟩ := Nat.exists_eq_add_of_le (Nat.le_of_not_lt hinit)
      rw [fileByte_concat _ _ (by omega), fileByte_concat _ _ (by omega)]
      exact (recordPage_spec last.data f.lrecoff hlen (fun i => buf i) n).2.2 j (by omega)

/-! ### `spool_append_rec` -/

/-- A failed append keeps the records. -/
theorem SpoolInv.withList {f : SpoolFile} {recs : List (List UInt8)} (h : SpoolInv f recs)
    {list : List SpoolPage} (hlength : list.length = f.list.length)
    (hbytes : ∀ i < f.fileEnd, fileByte list i = fileByte f.list i) :
    SpoolInv { f with list } recs := by
  have hnil : list = [] ↔ f.list = [] := by
    rw [← List.length_eq_zero_iff, hlength, List.length_eq_zero_iff]
  have hend : SpoolFile.fileEnd { f with list } = f.fileEnd := by
    simp only [SpoolFile.fileEnd, hnil, hlength]
  refine ⟨h.recs_eq, h.pages_eq.trans hlength.symm, h.frecoff_even, h.lrecoff_even,
    fun hempty => h.frecoff_empty (hnil.1 hempty), fun hne => h.offsets fun hempty =>
      hne (hnil.2 hempty), h.nonempty, ?_⟩
  rw [hend]
  exact Log.congr h.log hbytes

/-- One more record behind the last one. -/
theorem SpoolInv.concat {f : SpoolFile} {recs : List (List UInt8)} (h : SpoolInv f recs)
    {r : List UInt8} (hr : r ≠ []) {list : List SpoolPage} {pages lrecoff : ℕ}
    (hbytes : ∀ i < f.fileEnd, fileByte list i = fileByte f.list i)
    (hat : recordLayout.At (fileByte list) f.fileEnd r) (hpages : pages = list.length)
    (hne : list ≠ []) (hend : f.fileEnd + recordLayout.size r = 4080 * (list.length - 1) + lrecoff)
    (heven : lrecoff % 2 = 0) (hpos : 0 < lrecoff) (hle : lrecoff ≤ 4080) :
    SpoolInv ⟨list, f.recs + 1, pages, f.frecoff, lrecoff⟩ (recs ++ [r]) := by
  constructor
  case recs_eq =>
    rw [List.length_append, ← h.recs_eq]
    rfl
  case pages_eq => exact hpages
  case frecoff_even => exact h.frecoff_even
  case lrecoff_even => exact heven
  case frecoff_empty => exact fun hempty => absurd hempty hne
  case offsets => exact fun _ => ⟨h.frecoff_lt, hpos, hle⟩
  case nonempty =>
    intro r' hr'
    rcases List.mem_append.1 hr' with hr' | hr'
    · exact h.nonempty r' hr'
    · rwa [List.mem_singleton.1 hr']
  case log =>
    have hlog := Log.concat (Log.congr h.log hbytes) hat
    rw [hend] at hlog
    rwa [SpoolFile.fileEnd_of_ne_nil hne]

/-- The record is added, or the call fails and the records stay. -/
def Appended (recs : List (List UInt8)) (r : List UInt8) (a : AppendResult) : Prop :=
  a.ret = 0 ∧ SpoolInv a.file (recs ++ [r]) ∨ a.ret = -enomem ∧ SpoolInv a.file recs

/-- **The steps of `spool_append_rec`** on a file that satisfies the invariant: the last page is
filled, then pages are added, or none are left and the call fails. -/
theorem spoolAppendRec_eq {f : SpoolFile} {recs : List (List UInt8)} (h : SpoolInv f recs)
    {buf : ℤ → UInt8} {len : ℕ} (hpos : len ≠ 0) (supply : List (Option SpoolPage))
    {list : List SpoolPage} {copied loff : ℕ}
    (hfill : fillLastPage f buf len = (list, copied, loff))
    (hle : copied ≤ len + 2) :
    (∀ pages loff', newPages buf len supply copied loff [] = .ok (pages, loff') →
      spoolAppendRec f buf len supply = some ⟨0, ⟨list ++ pages, f.recs + 1,
        f.pages + pages.length, f.frecoff, loff' + loff' % 2⟩, []⟩) ∧
    ∀ pages, newPages buf len supply copied loff [] = .error pages →
      spoolAppendRec f buf len supply =
        some ⟨-enomem, { f with list }, pages.map SpoolPage.addr⟩ := by
  have heven : ¬ f.lrecoff % 2 ≠ 0 := by rw [h.lrecoff_even]; decide
  constructor
  · intro pages loff' hok
    rw [spoolAppendRec, if_neg hpos, if_neg heven, hfill]
    dsimp only
    rw [if_neg (Nat.not_lt.2 hle), hok]
  · intro pages herror
    rw [spoolAppendRec, if_neg hpos, if_neg heven, hfill]
    dsimp only
    rw [if_neg (Nat.not_lt.2 hle), herror]

/-- A call for which a page is missing fails and keeps the records. -/
theorem spoolAppendRec_nomem {f : SpoolFile} {recs : List (List UInt8)} (h : SpoolInv f recs)
    (buf : ℤ → UInt8) {len : ℕ} (hpos : len ≠ 0) (hlen : len < 65536)
    {supply : List (Option SpoolPage)}
    (hmissing : ∃ i < pagesNeeded f len, ∀ spage, supply[i]? ≠ some (some spage)) :
    ∃ a, spoolAppendRec f buf len supply = some a ∧ a.ret = -enomem ∧ SpoolInv a.file recs := by
  obtain ⟨hlength, hbytes⟩ := fillLastPage_fileByte h buf hlen
  obtain ⟨list, copied, loff, hfill⟩ : ∃ list copied loff,
      fillLastPage f buf len = (list, copied, loff) := ⟨_, _, _, rfl⟩
  rw [hfill] at hlength hbytes
  have hcopied : copied = lastCopied f len := by
    rcases fillLastPage_cases h buf len with
      ⟨hzero, _, hfill'⟩ | ⟨_, _, n, _, _, _, hn, _, hfill'⟩ <;> rw [hfill] at hfill'
    · rw [hzero, (Prod.mk.inj (Prod.mk.inj hfill').2).1]
    · rw [hn, (Prod.mk.inj (Prod.mk.inj hfill').2).1]
  have hle : copied ≤ len + 2 := by
    rw [hcopied, lastCopied]
    split <;> omega
  rw [pagesNeeded, ← hcopied] at hmissing
  obtain ⟨pages, herror⟩ := newPages_error buf loff [] hle hmissing
  exact ⟨_, (spoolAppendRec_eq h hpos supply hfill hle).2 pages herror, rfl,
    h.withList hlength hbytes⟩

/-- The record is there if its length and its data are. -/
theorem recordOf_at {b : ℕ → UInt8} {p len : ℕ} {buf : ℤ → UInt8} (hlen : recLen b p = len)
    (hdata : ∀ i < len, b (p + 2 + i) = buf i) : recordLayout.At b p (recordOf buf len) := by
  refine ⟨by rw [hlen, length_recordOf], fun i hi => ?_⟩
  rw [length_recordOf] at hi
  rw [hdata i hi]
  simp only [recordOf, List.getElem_map, List.getElem_range]

/-- A record of some length is not empty. -/
theorem recordOf_ne_nil (buf : ℤ → UInt8) {len : ℕ} (hpos : len ≠ 0) : recordOf buf len ≠ [] := by
  intro hnil
  have := length_recordOf buf len
  rw [hnil] at this
  exact hpos this.symm

/-- The length read from a record head depends on its two bytes. -/
theorem recLen_congr {b b' : ℕ → UInt8} {p q : ℕ} (h0 : b p = b' q) (h1 : b (p + 1) = b' (q + 1)) :
    recLen b p = recLen b' q := by
  rw [recLen, recLen, h0, h1]

/-- The whole record fits behind the last one. -/
theorem spoolAppendRec_lastPage {f : SpoolFile} {recs : List (List UInt8)} (h : SpoolInv f recs)
    (buf : ℤ → UInt8) {len : ℕ} (hpos : len ≠ 0) (hlen : len < 65536)
    (supply : List (Option SpoolPage)) (hfits : lastCopied f len = len + 2) :
    ∃ a, spoolAppendRec f buf len supply = some a ∧ Appended recs (recordOf buf len) a := by
  obtain ⟨hlength, hbytes⟩ := fillLastPage_fileByte h buf hlen
  rcases fillLastPage_cases h buf len with
    ⟨hzero, _, _⟩ | ⟨init, last, n, hlist, hoff, hn, hcopied, hend, hfill⟩
  · omega
  obtain rfl : n = len := by omega
  rw [hfill] at hlength hbytes
  obtain ⟨hreclen, hdata, _⟩ := recordPage_spec last.data f.lrecoff hlen (fun i => buf i) n
  have heven := h.lrecoff_even
  have hok : newPages buf n supply (2 + n) (f.lrecoff + (2 + n)) [] =
      .ok ([], f.lrecoff + (2 + n)) := by
    rw [Nat.add_comm 2 n, newPages_done]
  refine ⟨_, (spoolAppendRec_eq h hpos supply hfill (by omega)).1 _ _ hok, Or.inl ⟨rfl, ?_⟩⟩
  dsimp only
  rw [List.append_nil]
  refine h.concat (recordOf_ne_nil buf hpos) hbytes (recordOf_at ?_ fun i hi => ?_) ?_ (by simp) ?_
    ?_ ?_ ?_
  · rw [hend]
    refine (recLen_congr (fileByte_concat _ _ (by omega)) ?_).trans hreclen
    rw [Nat.add_assoc, fileByte_concat _ _ (by omega)]
  · rw [← hdata i hi, hend, Nat.add_assoc, Nat.add_assoc, fileByte_concat _ _ (by omega),
      Nat.add_assoc]
  · rw [hlength, List.length_nil, h.pages_eq, Nat.add_zero]
  · rw [hend, recordLayout_size, length_recordOf, List.length_append, List.length_singleton]
    omega
  all_goals omega

/-- The length is alone at the end of the last page. -/
theorem spoolAppendRec_headAlone {f : SpoolFile} {recs : List (List UInt8)} (h : SpoolInv f recs)
    (buf : ℤ → UInt8) {len : ℕ} (hpos : len ≠ 0) (hlen : len < 65536)
    (supply : List (Option SpoolPage)) (halone : lastCopied f len = 2) (hfits : len ≤ 4080) :
    ∃ a, spoolAppendRec f buf len supply = some a ∧ Appended recs (recordOf buf len) a := by
  obtain ⟨hlength, hbytes⟩ := fillLastPage_fileByte h buf hlen
  rcases fillLastPage_cases h buf len with
    ⟨hzero, _, _⟩ | ⟨init, last, n, hlist, hoff, hn, hcopied, hend, hfill⟩
  · omega
  obtain rfl : n = 0 := by omega
  rw [hfill] at hlength hbytes
  obtain ⟨hreclen, _, _⟩ := recordPage_spec last.data f.lrecoff hlen (fun i => buf i) 0
  have heven := h.lrecoff_even
  have htmp : ∀ spage, fillNewPage buf len 2 spage =
      (⟨spage.addr, memcpy spage.data 0 (fun i => buf i) 0 len⟩, len) := by
    intro spage
    have hmin : min (len + 2 - 2) spoolDataSize = len := by
      rw [spoolDataSize_eq]
      omega
    rw [fillNewPage, if_neg (by decide), hmin]
    simp
  rcases newPages_one buf len 2 (by omega)
    (fun spage => by rw [htmp]; omega) supply (f.lrecoff + 2) [] with ⟨spage, hok⟩ | herror
  · rw [htmp, List.nil_append] at hok
    refine ⟨_, (spoolAppendRec_eq h hpos supply hfill (by omega)).1 _ _ hok, Or.inl ⟨rfl, ?_⟩⟩
    dsimp only
    have hfull : 4080 * init.length + f.lrecoff + 2 = 4080 * f.list.length := by
      rw [hlist, List.length_append, List.length_singleton]
      omega
    dsimp only at hlength hbytes
    have hbytes' := fun i (hi : i < 4080 * f.list.length) =>
      fileByte_append_of_lt [⟨spage.addr, memcpy spage.data 0 (fun i => buf i) 0 len⟩]
        (hlength ▸ hi)
    refine h.concat (recordOf_ne_nil buf hpos) (fun i hi => ?_)
      (recordOf_at ?_ fun i hi => ?_) ?_ (by simp) ?_ ?_ ?_ ?_
    · rw [hbytes' i (by omega), hbytes i hi]
    · rw [hend]
      refine (recLen_congr ?_ ?_).trans hreclen
      · rw [hbytes' _ (by omega), fileByte_concat _ _ (by omega)]
      · rw [hbytes' _ (by omega), Nat.add_assoc, fileByte_concat _ _ (by omega)]
    · rw [hend, hfull, ← hlength, fileByte_append_add, fileByte_head (by omega)]
      dsimp only
      rw [memcpy, if_pos (by omega)]
      congr 1
      omega
    · rw [List.length_append, hlength, h.pages_eq]
    · rw [hend, recordLayout_size, length_recordOf, List.length_append, hlength,
        List.length_singleton]
      omega
    all_goals omega
  · exact ⟨_, (spoolAppendRec_eq h hpos supply hfill (by omega)).2 _ herror,
      Or.inr ⟨rfl, h.withList hlength hbytes⟩⟩

/-- The record begins in a new page and ends there. -/
theorem spoolAppendRec_newPage {f : SpoolFile} {recs : List (List UInt8)} (h : SpoolInv f recs)
    (buf : ℤ → UInt8) {len : ℕ} (hpos : len ≠ 0) (hlen : len < 65536)
    (supply : List (Option SpoolPage)) (hzero : lastCopied f len = 0) (hfits : len + 2 ≤ 4080) :
    ∃ a, spoolAppendRec f buf len supply = some a ∧ Appended recs (recordOf buf len) a := by
  rcases fillLastPage_cases h buf len with
    ⟨_, hend, hfill⟩ | ⟨init, last, n, hlist, hoff, hn, hcopied, hend, hfill⟩
  swap
  · omega
  have htmp : ∀ spage, fillNewPage buf len 0 spage = (⟨spage.addr,
      memcpy (setRecLen spage.data 0 len) (0 + 2) (fun i => buf i) 0 len⟩, 2 + len) := by
    intro spage
    have hmin : min len (spoolDataSize - 2) = len := by
      rw [spoolDataSize_eq]
      omega
    rw [fillNewPage, if_pos rfl, hmin]
  rcases newPages_one buf len 0 (by omega)
    (fun spage => by rw [htmp]; omega) supply 0 [] with ⟨spage, hok⟩ | herror
  · rw [htmp, List.nil_append] at hok
    refine ⟨_, (spoolAppendRec_eq h hpos supply hfill (by omega)).1 _ _ hok, Or.inl ⟨rfl, ?_⟩⟩
    dsimp only
    obtain ⟨hreclen, hdata, _⟩ := recordPage_spec spage.data 0 hlen (fun i => buf i) len
    refine h.concat (recordOf_ne_nil buf hpos) (fun i hi => ?_)
      (recordOf_at ?_ fun i hi => ?_) ?_ (by simp) ?_ ?_ ?_ ?_
    · exact fileByte_append_of_lt _ (by omega)
    · rw [hend]
      refine (recLen_congr ?_ ?_).trans hreclen
      · rw [← Nat.add_zero (4080 * f.list.length), fileByte_append_add, fileByte_head (by omega)]
      · rw [fileByte_append_add, fileByte_head (by omega)]
    · rw [← hdata i hi, hend, Nat.add_assoc, fileByte_append_add, fileByte_head (by omega),
        Nat.zero_add]
    · rw [List.length_append, h.pages_eq]
    · rw [hend, recordLayout_size, length_recordOf, List.length_append, List.length_singleton]
      omega
    all_goals omega
  · exact ⟨_, (spoolAppendRec_eq h hpos supply hfill (by omega)).2 _ herror, Or.inr ⟨rfl, h⟩⟩

/-- **A record whose data is not cut is stored as it was given**, or the call
fails. -/
theorem spoolAppendRec_spec {f : SpoolFile} {recs : List (List UInt8)} (h : SpoolInv f recs)
    (buf : ℤ → UInt8) {len : ℕ} (hpos : len ≠ 0) (hlen : len < 65536)
    (supply : List (Option SpoolPage)) (hunsplit : Unsplit f len) :
    ∃ a, spoolAppendRec f buf len supply = some a ∧ Appended recs (recordOf buf len) a := by
  rcases hunsplit with hlast | ⟨hle, hfits⟩
  · exact spoolAppendRec_lastPage h buf hpos hlen supply hlast
  · by_cases hzero : lastCopied f len = 0
    · exact spoolAppendRec_newPage h buf hpos hlen supply hzero (by omega)
    · have halone : lastCopied f len = 2 := by
        by_cases hlast : f.pages ≠ 0 ∧ f.lrecoff + 2 ≤ 4080
        · rw [lastCopied, if_pos hlast] at hle ⊢
          omega
        · exact absurd (if_neg hlast) hzero
      exact spoolAppendRec_headAlone h buf hpos hlen supply halone (by omega)

end Hvf
