/-
# The records of a spool file

Read as one sequence, the pages of a spool file hold its records one after the
other, from `frecoff` in the first page to `lrecoff` in the last (`SpoolInv`).
`spool_grab_rec` takes the first of them, however many pages it spans
(`spoolGrabRec_spec`).  `spool_append_rec` adds one if the data stays in one page, or is
cut at most behind the length (`spoolAppendRec_spec`); when `alloc_pages` fails it leaves
the records as they were.
-/

import Hvf.Fs.Spool
import Hvf.Lib.PagedLog

namespace Hvf

open PagedLog

/-- A page of a spool file holds 4080 bytes of data behind its header. -/
theorem spoolDataSize_eq : spoolDataSize = 4080 := rfl

/-- Byte `i` of the pages, one after the other. -/
def fileByte (list : List SpoolPage) (i : ℕ) : UInt8 :=
  get spoolDataSize (list.map SpoolPage.data) i

/-- A record: its length and its data, padded to an even number of bytes. -/
def recordLayout : Layout UInt8 (List UInt8) where
  size r := 2 + r.length + r.length % 2
  At b p r := recLen b p = r.length ∧ ∀ i (hi : i < r.length), b (p + 2 + i) = r[i]
  move := by
    rintro b b' p q r ⟨hlen, hdata⟩ heq
    refine ⟨?_, fun i hi => ?_⟩
    · have h0 := heq 0 (by omega)
      have h1 := heq 1 (by omega)
      rw [Nat.add_zero, Nat.add_zero] at h0
      rw [recLen, h0, h1, ← recLen, hlen]
    · rw [← hdata i hi, Nat.add_assoc, Nat.add_assoc]
      exact heq (2 + i) (by omega)

/-- A record takes two bytes of length, its data, and a byte of padding if it is odd. -/
theorem recordLayout_size (r : List UInt8) :
    recordLayout.size r = 2 + r.length + r.length % 2 := rfl

/-! ### Bytes of the pages -/

/-- A byte within the first page is a byte of that page. -/
theorem fileByte_head {spage : SpoolPage} {list : List SpoolPage} {i : ℕ} (hi : i < 4080) :
    fileByte (spage :: list) i = spage.data i :=
  get_cons_of_lt hi

/-- The bytes of the pages from the `k`-th on are those of the file from byte `4080·k` on. -/
theorem fileByte_drop (list : List SpoolPage) (k i : ℕ) :
    fileByte (list.drop k) i = fileByte list (4080 * k + i) := by
  rw [fileByte, fileByte, List.map_drop, get_drop (by decide), spoolDataSize_eq]

/-- Pages behind do not change the bytes before them. -/
theorem fileByte_append_of_lt {list : List SpoolPage} (list' : List SpoolPage) {i : ℕ}
    (hi : i < 4080 * list.length) :
    fileByte (list ++ list') i = fileByte list i := by
  rw [fileByte, List.map_append, get_append_of_lt (by rwa [List.length_map]), fileByte]

/-- The bytes of pages behind are found behind the bytes of the pages before them. -/
theorem fileByte_append_add (list list' : List SpoolPage) (i : ℕ) :
    fileByte (list ++ list') (4080 * list.length + i) = fileByte list' i := by
  have hget : get spoolDataSize (list.map SpoolPage.data ++ list'.map SpoolPage.data)
      (spoolDataSize * (list.map SpoolPage.data).length + i)
        = get spoolDataSize (list'.map SpoolPage.data) i := get_append_add (by decide) _ _ i
  rw [List.length_map, ← List.map_append] at hget
  exact hget

/-! ### The invariant -/

/-- The position behind the last record. -/
def SpoolFile.fileEnd (f : SpoolFile) : ℕ :=
  if f.list = [] then 0 else 4080 * (f.list.length - 1) + f.lrecoff

/-- **`f` holds the records `recs`.** Counters and offsets agree with them, and the pages,
read as one row of bytes, are a log of the records from the first one's place to the file's
end. -/
structure SpoolInv (f : SpoolFile) (recs : List (List UInt8)) : Prop where
  recs_eq : f.recs = recs.length
  pages_eq : f.pages = f.list.length
  frecoff_even : f.frecoff % 2 = 0
  lrecoff_even : f.lrecoff % 2 = 0
  frecoff_empty : f.list = [] → f.frecoff = 0
  offsets : f.list ≠ [] → f.frecoff < 4080 ∧ 0 < f.lrecoff ∧ f.lrecoff ≤ 4080
  nonempty : ∀ r ∈ recs, r ≠ []
  log : recordLayout.Log (fileByte f.list) f.frecoff recs f.fileEnd

/-- A file just made satisfies the invariant, with no record. -/
theorem spoolInv_alloc : SpoolInv allocSpool [] :=
  ⟨rfl, rfl, rfl, rfl, fun _ => rfl, fun h => absurd rfl h, by simp, rfl⟩

/-- The first record begins within the first page. -/
theorem SpoolInv.frecoff_lt {f : SpoolFile} {recs : List (List UInt8)} (h : SpoolInv f recs) :
    f.frecoff < 4080 := by
  by_cases hlist : f.list = []
  · rw [h.frecoff_empty hlist]
    decide
  · exact (h.offsets hlist).1

/-- A file without pages ends at byte 0. -/
theorem SpoolFile.fileEnd_of_nil {f : SpoolFile} (h : f.list = []) : f.fileEnd = 0 := if_pos h

/-- The end of a file with pages: all pages but the last, and the offset in that. -/
theorem SpoolFile.fileEnd_of_ne_nil {f : SpoolFile} (h : f.list ≠ []) :
    f.fileEnd = 4080 * (f.list.length - 1) + f.lrecoff := if_neg h

/-- The end of a file is within its pages. -/
theorem SpoolInv.fileEnd_le {f : SpoolFile} {recs : List (List UInt8)} (h : SpoolInv f recs) :
    f.fileEnd ≤ 4080 * f.list.length := by
  by_cases hlist : f.list = []
  · rw [SpoolFile.fileEnd_of_nil hlist]
    exact Nat.zero_le _
  · rw [SpoolFile.fileEnd_of_ne_nil hlist]
    have hlrec := (h.offsets hlist).2.2
    have hpos := List.length_pos_of_ne_nil hlist
    omega

/-! ### The loop of `spool_grab_rec` -/

/-- **The variables of the loop between two rounds**: how much of the record was passed, how
much was copied, and that what is left of it is in the pages left. -/
structure Grab.Ok (reclen rlen : ℕ) (s : Grab) : Prop where
  processed_le : s.processed ≤ reclen + 2
  copied_ge : 2 ≤ s.copied
  copied_le : s.copied ≤ rlen
  rlen_le : rlen ≤ reclen + 2
  phase : s.processed = s.copied ∨ s.copied = rlen
  left_eq : s.offset + s.left = 4080
  bytes : s.offset + (reclen + 2 - s.processed) ≤ 4080 * s.list.length

/-- `s'` is `s` after some more bytes of the record: `k` pages further, with what
was copied on the way. -/
structure Grab.Moved (s s' : Grab) (k : ℕ) : Prop where
  list_eq : s'.list = s.list.drop k
  freed_eq : s'.freed = s.freed ++ (s.list.take k).map SpoolPage.addr
  processed_le : s.processed ≤ s'.processed
  position : s'.offset + 4080 * k + s.processed = s.offset + s'.processed
  copied_le : s.copied ≤ s'.copied
  buf_copied : ∀ i, s.copied ≤ i + 2 → i + 2 < s'.copied →
    s'.buf i = fileByte s.list (s.offset + (i + 2 - s.copied))
  buf_kept : ∀ i, i + 2 < s.copied ∨ s'.copied ≤ i + 2 → s'.buf i = s.buf i

/-- A grab that has read nothing has moved nothing. -/
theorem Grab.Moved.refl (s : Grab) : s.Moved s 0 :=
  ⟨rfl, by simp, Nat.le_refl _, rfl, Nat.le_refl _, fun i _ _ => by omega, fun _ _ => rfl⟩

/-- Once the buffer is full nothing more is copied, so what is copied later goes
on where the first part ended. -/
theorem Grab.Moved.trans {k k' : ℕ} {s s₁ s' : Grab} (h : s.Moved s₁ k)
    (h' : s₁.Moved s' k') (hphase : s₁.copied = s'.copied ∨
      s.processed = s.copied ∧ s₁.processed = s₁.copied) : s.Moved s' (k + k') := by
  constructor
  case list_eq => rw [h'.list_eq, h.list_eq, List.drop_drop]
  case freed_eq =>
    rw [h'.freed_eq, h.freed_eq, h.list_eq, List.append_assoc, ← List.map_append, List.take_add]
  case processed_le => exact h.processed_le.trans h'.processed_le
  case position =>
    have := h.position
    have := h'.position
    omega
  case copied_le => exact h.copied_le.trans h'.copied_le
  case buf_copied =>
    intro i hge hlt
    have hcopied := h.copied_le
    have hpos := h.position
    by_cases hlater : s₁.copied ≤ i + 2
    · rw [h'.buf_copied i hlater hlt, h.list_eq, fileByte_drop]
      congr 1
      omega
    · rw [h'.buf_kept i (by omega), h.buf_copied i hge (by omega)]
  case buf_kept =>
    intro i hi
    have hcopied := h.copied_le
    have hcopied' := h'.copied_le
    rw [h'.buf_kept i (by omega), h.buf_kept i (by omega)]

/-- The next page begins. -/
theorem Grab.nextPage_spec {reclen rlen : ℕ} {s : Grab} (h : s.Ok reclen rlen)
    (hleft : s.left = 0) :
    ∃ s₁, s.nextPage = some s₁ ∧ s₁.Ok reclen rlen ∧ s₁.left ≠ 0 ∧ s.Moved s₁ 1 ∧
      s₁.processed = s.processed ∧ s₁.copied = s.copied := by
  have hle := h.processed_le
  have hbytes := h.bytes
  have hoff := h.left_eq
  cases hlist : s.list with
  | nil =>
    rw [hlist, List.length_nil] at hbytes
    omega
  | cons spage list =>
    rw [hlist, List.length_cons] at hbytes
    refine ⟨{ s with list, freed := s.freed ++ [spage.addr], offset := 0, left := spoolDataSize },
      by rw [Grab.nextPage, hlist], ?_, Nat.succ_ne_zero 4079, ?_, rfl, rfl⟩
    · exact ⟨h.processed_le, h.copied_ge, h.copied_le, h.rlen_le, h.phase, rfl, by
        change 0 + (reclen + 2 - s.processed) ≤ 4080 * list.length
        omega⟩
    · refine ⟨?_, ?_, Nat.le_refl _, ?_, Nat.le_refl _, fun i hge hlt => ?_, fun _ _ => rfl⟩
      · rw [hlist]
        rfl
      · rw [hlist]
        rfl
      · change 0 + 4080 * 1 + s.processed = s.offset + s.processed
        omega
      · exact absurd hlt (Nat.not_lt.2 hge)

/-- One copy, or one skip. -/
theorem Grab.consume_spec {reclen rlen : ℕ} {s : Grab} (h : s.Ok reclen rlen) (hleft : s.left ≠ 0)
    (hmore : s.processed ≠ reclen + 2) :
    ∃ s₁, s.consume reclen rlen = some s₁ ∧ s₁.Ok reclen rlen ∧ s.Moved s₁ 0 ∧
      s.processed < s₁.processed ∧ 0 < s₁.offset ∧
      (s.processed = s.copied ∧ s₁.processed = s₁.copied ∨ s₁.copied = rlen) := by
  have hle := h.processed_le
  have hge := h.copied_ge
  have hcopied := h.copied_le
  have hrlen := h.rlen_le
  have hphase := h.phase
  have hbytes := h.bytes
  have hoff := h.left_eq
  cases hlist : s.list with
  | nil =>
    rw [hlist, List.length_nil] at hbytes
    omega
  | cons spage list =>
    by_cases hfull : rlen = s.copied
    · refine ⟨s.skip (min s.left (reclen + 2 - s.processed)), ?_, ?_, ?_, ?_, ?_,
        Or.inr hfull.symm⟩
      · rw [Grab.consume, hlist]
        exact if_neg (not_not.2 hfull)
      · refine ⟨?_, ?_, ?_, hrlen, ?_, ?_, ?_⟩ <;> simp only [Grab.skip] <;> omega
      · refine ⟨rfl, by simp [Grab.skip], ?_, ?_, Nat.le_refl _, fun i hge hlt => ?_,
          fun _ _ => rfl⟩
        · simp only [Grab.skip]
          omega
        · simp only [Grab.skip]
          omega
        · exact absurd hlt (Nat.not_lt.2 hge)
      · simp only [Grab.skip]
        omega
      · simp only [Grab.skip]
        omega
    · refine ⟨s.copy spage (min s.left (rlen - s.copied)), ?_, ?_, ?_, ?_, ?_, ?_⟩
      · rw [Grab.consume, hlist]
        exact if_pos hfull
      · refine ⟨?_, ?_, ?_, hrlen, ?_, ?_, ?_⟩ <;> simp only [Grab.copy] <;> omega
      · refine ⟨rfl, by simp [Grab.copy], ?_, ?_, ?_, fun i hge hlt => ?_, fun i hi => ?_⟩
        · simp only [Grab.copy]
          omega
        · simp only [Grab.copy]
          omega
        · simp only [Grab.copy]
          omega
        · simp only [Grab.copy, memcpy] at hlt ⊢
          rw [if_pos (by omega), hlist, fileByte_head (by omega)]
          congr 1
          omega
        · simp only [Grab.copy, memcpy] at hi ⊢
          rw [if_neg (by omega)]
      · simp only [Grab.copy]
        omega
      · simp only [Grab.copy]
        omega
      · simp only [Grab.copy]
        omega

/-- **The loop takes the whole record** and copies as much of it as the buffer
holds. -/
theorem grabLoop_spec {reclen rlen : ℕ} (fuel : ℕ) {s : Grab} (h : s.Ok reclen rlen)
    (hfuel : reclen + 2 - s.processed < fuel) (hoff : 0 < s.offset) :
    ∃ s' k, grabLoop reclen rlen fuel s = some s' ∧ s.Moved s' k ∧ s'.Ok reclen rlen ∧
      s'.processed = reclen + 2 ∧ s'.copied = rlen ∧ 0 < s'.offset := by
  induction fuel generalizing s with
  | zero => omega
  | succ fuel ih =>
    have hle := h.processed_le
    by_cases hdone : s.processed = reclen + 2
    · have hphase := h.phase
      have hcopied := h.copied_le
      have hrlen := h.rlen_le
      exact ⟨s, 0, by rw [grabLoop, if_pos hdone.symm], Grab.Moved.refl s, h, hdone, by omega, hoff⟩
    -- a round that begins with bytes left in the page
    have hround : ∀ s : Grab, s.Ok reclen rlen → reclen + 2 - s.processed < fuel + 1 →
        s.processed ≠ reclen + 2 → s.left ≠ 0 → ∃ s' k,
          ((s.consume reclen rlen).bind fun s => grabLoop reclen rlen fuel s) = some s' ∧
            s.Moved s' k ∧ s'.Ok reclen rlen ∧ s'.processed = reclen + 2 ∧ s'.copied = rlen ∧
              0 < s'.offset := by
      intro s h hfuel hdone hleft
      obtain ⟨s₁, hconsume, hok₁, hmoved₁, hlt, hoff₁, hphase₁⟩ := Grab.consume_spec h hleft hdone
      have hle₁ := hok₁.processed_le
      obtain ⟨s', k, hloop, hmoved', hok', hend, hfull, hoff'⟩ := ih hok₁ (by omega) hoff₁
      refine ⟨s', 0 + k, by rw [hconsume]; exact hloop, hmoved₁.trans hmoved' ?_, hok', hend, hfull,
        hoff'⟩
      rcases hphase₁ with hboth | hfull₁
      · exact Or.inr hboth
      · exact Or.inl (hfull₁.trans hfull.symm)
    rw [grabLoop, if_neg (fun heq => hdone heq.symm)]
    by_cases hleft : s.left = 0
    · obtain ⟨s₁, hnext, hok₁, hleft₁, hmoved₁, hproc₁, hcopied₁⟩ := Grab.nextPage_spec h hleft
      obtain ⟨s', k, hloop, hmoved', hok', hend, hfull, hoff'⟩ := hround s₁ hok₁ (by omega)
        (by omega) hleft₁
      refine ⟨s', 1 + k, ?_, hmoved₁.trans hmoved' ?_, hok', hend, hfull, hoff'⟩
      · rw [if_pos hleft, hnext]
        exact hloop
      · have hphase := h.phase
        rw [hcopied₁, hproc₁]
        omega
    · rw [if_neg hleft]
      exact hround s h hfuel hdone hleft

/-! ### `spool_grab_rec` -/

/-- A grab from a file without records gives `-ENOENT` and leaves everything as it was. -/
theorem spoolGrabRec_empty {f : SpoolFile} (h : SpoolInv f []) (buf : ℕ → UInt8) {cap : ℕ}
    (hcap : cap ≠ 0) : spoolGrabRec f buf cap = some ⟨-enoent, cap, buf, f, []⟩ := by
  rw [spoolGrabRec, if_neg hcap, if_pos (by rw [h.recs_eq]; rfl)]

/-- Without its first record the file goes on at `frecoff'`, `k` pages further. -/
theorem SpoolInv.rest {f : SpoolFile} {r : List UInt8} {recs : List (List UInt8)}
    (h : SpoolInv f (r :: recs)) {k frecoff' : ℕ} (hk : k ≤ f.list.length)
    (hpos : 4080 * k + frecoff' = f.frecoff + recordLayout.size r) (heven : frecoff' % 2 = 0)
    (hlt : frecoff' < 4080) (hend : k = f.list.length → frecoff' = 0) :
    SpoolInv ⟨f.list.drop k, f.recs - 1, f.pages - k, frecoff', f.lrecoff⟩ recs := by
  have hlog := h.log.2
  have hle := Log.le hlog
  have hsize := recordLayout_size r
  have hlast : k < f.list.length → (f.list.drop k) ≠ [] := fun hlt hnil => by
    have := List.drop_eq_nil_iff.1 hnil
    omega
  constructor
  case recs_eq => exact congrArg (· - 1) h.recs_eq
  case pages_eq =>
    change f.pages - k = (f.list.drop k).length
    rw [h.pages_eq, List.length_drop]
  case frecoff_even => exact heven
  case lrecoff_even => exact h.lrecoff_even
  case frecoff_empty =>
    intro hnil
    have := List.drop_eq_nil_iff.1 hnil
    exact hend (by omega)
  case offsets =>
    intro hne
    refine ⟨hlt, (h.offsets fun hnil => hne ?_).2⟩
    change f.list.drop k = []
    rw [hnil, List.drop_nil]
  case nonempty => exact fun r' hr' => h.nonempty r' (List.mem_cons_of_mem _ hr')
  case log =>
    have hmoved : recordLayout.Log (fileByte (f.list.drop k)) frecoff' recs
        (frecoff' + (f.fileEnd - (f.frecoff + recordLayout.size r))) :=
      Log.move hlog fun i _ => by
        rw [fileByte_drop]
        congr 1
        omega
    have hfileEnd := h.fileEnd_le
    suffices frecoff' + (f.fileEnd - (f.frecoff + recordLayout.size r)) = SpoolFile.fileEnd
        ⟨f.list.drop k, f.recs - 1, f.pages - k, frecoff', f.lrecoff⟩ by
      rw [← this]
      exact hmoved
    by_cases hall : k = f.list.length
    · have hzero := hend hall
      have hnil : f.list.drop k = [] := by rw [hall, List.drop_length]
      have hzero' : SpoolFile.fileEnd
          ⟨f.list.drop k, f.recs - 1, f.pages - k, frecoff', f.lrecoff⟩ = 0 :=
        SpoolFile.fileEnd_of_nil hnil
      omega
    · have hne : f.list ≠ [] := List.ne_nil_of_length_pos (by omega)
      rw [SpoolFile.fileEnd_of_ne_nil hne] at hle ⊢
      rw [SpoolFile.fileEnd_of_ne_nil (hlast (by omega))]
      change _ = 4080 * ((f.list.drop k).length - 1) + f.lrecoff
      rw [List.length_drop]
      omega

/-- **`spool_grab_rec` takes the first record**, truncated to the capacity. -/
theorem spoolGrabRec_spec {f : SpoolFile} {r : List UInt8} {recs : List (List UInt8)}
    (h : SpoolInv f (r :: recs)) (buf : ℕ → UInt8) {cap : ℕ} (hcap : cap ≠ 0) :
    ∃ g, spoolGrabRec f buf cap = some g ∧ g.ret = 0 ∧ g.len = min cap r.length ∧
      (∀ i (hi : i < r.length), i < cap → g.buf i = r[i]) ∧
      (∀ i, min cap r.length ≤ i → g.buf i = buf i) ∧ SpoolInv g.file recs ∧
      ∃ k, 4080 * k + g.file.frecoff = f.frecoff + recordLayout.size r ∧
        g.freed = (f.list.take k).map SpoolPage.addr ∧ g.file.list = f.list.drop k := by
  obtain ⟨⟨hlen, hdata⟩, hlog⟩ := h.log
  have hend := (Log.le hlog).trans h.fileEnd_le
  have hsize := recordLayout_size r
  have heven := h.frecoff_even
  have hlt := h.frecoff_lt
  cases hlist : f.list with
  | nil =>
    rw [hlist, List.length_nil] at hend
    omega
  | cons spage list =>
    rw [← hlist]
    have hreclen : recLen spage.data f.frecoff = r.length := by
      rw [← hlen, hlist, recLen, recLen, fileByte_head (by omega), fileByte_head (by omega)]
    have hok : Grab.Ok r.length (min cap r.length + 2)
        ⟨f.list, buf, 2, 2, f.frecoff + 2, spoolDataSize - f.frecoff - 2, []⟩ := by
      refine ⟨?_, Nat.le_refl 2, ?_, by omega, Or.inl rfl, ?_, ?_⟩ <;>
        dsimp only [spoolDataSize_eq] <;> omega
    obtain ⟨s', k, hloop, hmoved, hok', hproc, hcopied, hoff'⟩ :=
      grabLoop_spec (r.length + 1) hok (by dsimp only; omega) (Nat.succ_pos _)
    have hgrab : spoolGrabRec f buf cap = grabFinish f s' := by
      rw [spoolGrabRec, if_neg hcap, if_neg (by rw [h.recs_eq]; simp),
        if_neg (by rw [h.lrecoff_even]; decide), hlist]
      dsimp only
      rw [hreclen, ← hlist, hloop]
      rfl
    have hpos := hmoved.position
    have hoff := hok'.left_eq
    simp only at hpos
    have hk : k < f.list.length := by omega
    have hlen' : s'.copied - 2 = min cap r.length := by omega
    have hbuf : ∀ i (hi : i < r.length), i < cap → s'.buf i = r[i] := by
      intro i hi hicap
      rw [hmoved.buf_copied i (by dsimp only; omega) (by omega), ← hdata i hi]
      congr 1
    have hkept : ∀ i, min cap r.length ≤ i → s'.buf i = buf i :=
      fun i hi => hmoved.buf_kept i (by omega)
    have hfreed : s'.freed.length = k := by
      rw [hmoved.freed_eq, List.nil_append, List.length_map, List.length_take]
      exact Nat.min_eq_left (Nat.le_of_lt hk)
    rw [hgrab, grabFinish]
    by_cases hfull : s'.offset + s'.offset % 2 = spoolDataSize
    · -- the record ends with its page, which is freed too
      obtain ⟨last, rest, hrest⟩ : ∃ last rest, s'.list = last :: rest := by
        refine List.exists_cons_of_ne_nil fun hnil => ?_
        rw [hmoved.list_eq, List.drop_eq_nil_iff] at hnil
        exact absurd hnil (Nat.not_le.2 hk)
      rw [spoolDataSize_eq] at hfull
      have hdrop : rest = f.list.drop (k + 1) := by
        rw [← List.tail_drop, ← hmoved.list_eq, hrest, List.tail_cons]
      have htake : s'.freed ++ [last.addr] = (f.list.take (k + 1)).map SpoolPage.addr := by
        have hhead : f.list[k]? = some last := by
          rw [← List.head?_drop, ← hmoved.list_eq, hrest, List.head?_cons]
        rw [hmoved.freed_eq, List.take_add_one, hhead, List.map_append]
        rfl
      refine ⟨_, by simp only [if_pos hfull, spoolDataSize_eq, hrest]; rfl, rfl, hlen', hbuf, hkept,
        ?_, k + 1, ?_, htake, hdrop⟩
      · dsimp only
        rw [hdrop, hfreed]
        exact h.rest (by omega) (by omega) rfl (by decide) fun _ => rfl
      · dsimp only
        omega
    · refine ⟨_, by simp only [if_neg hfull]; rfl, rfl, hlen', hbuf, hkept, ?_, k, ?_,
        hmoved.freed_eq, hmoved.list_eq⟩
      · rw [spoolDataSize_eq] at hfull
        dsimp only
        rw [hmoved.list_eq, hfreed]
        exact h.rest (by omega) (by omega) (by omega) (by omega) fun hall => by omega
      · dsimp only
        omega

end Hvf
