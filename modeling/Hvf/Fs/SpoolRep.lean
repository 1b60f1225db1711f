/-
# The representation of a spool file

What is in the pages of a spool file, read without its records: from `frecoff` of
the first page on, the lengths of the records and what they skip lead to
`lrecoff` of the last page (`SpoolRep`).  This holds after every run of
`spool_append_rec` and `spool_grab_rec`, records that are cut and calls that
`alloc_pages` fails included (`spoolFile_rep`).
-/

import Hvf.Fs.SpoolFifo

namespace Hvf

open PagedLog StepRun

/-- The lengths of `n` records from position `p` of the pages on, and the position
behind the last one; `none` if a length lies behind the pages. -/
def headers (list : List SpoolPage) : ℕ → ℕ → Option (List ℕ × ℕ)
  | 0, p => some ([], p)
  | n + 1, p =>
      if p + 2 ≤ spoolDataSize * list.length then do
        let len := recLen (fileByte list) p
        let (lens, e) ← headers list n (p + 2 + len + len % 2)
        some (len :: lens, e)
      else none

/-- **The pages of `f` hold records of the lengths `lens`**: walking from head to head comes
to the file's end behind the last one. This is what holds whatever bytes the records have.
-/
structure SpoolRep (f : SpoolFile) (lens : List ℕ) : Prop where
  pages_eq : f.pages = f.list.length
  frecoff_even : f.frecoff % 2 = 0
  lrecoff_even : f.lrecoff % 2 = 0
  frecoff_le : f.frecoff ≤ 4080
  lrecoff_le : f.lrecoff ≤ 4080
  empty : f.pages = 0 → f.recs = 0 ∧ f.frecoff = 0
  recs_eq : f.recs = lens.length
  walk : headers f.list f.recs f.frecoff = some (lens, f.fileEnd)

/-- The record heads read along a log are the lengths of its records, up to the end of the log.
-/
theorem headers_of_log {list : List SpoolPage} {recs : List (List UInt8)} {p e : ℕ}
    (hlog : recordLayout.Log (fileByte list) p recs e) (he : e ≤ 4080 * list.length) :
    headers list recs.length p = some (recs.map List.length, e) := by
  induction recs generalizing p with
  | nil =>
    obtain rfl : p = e := hlog
    rfl
  | cons r recs ih =>
    obtain ⟨⟨hlen, _⟩, hrest⟩ := hlog
    have hle := Log.le hrest
    have hsize := recordLayout_size r
    have hwalk : headers list recs.length (p + 2 + r.length + r.length % 2) =
        some (recs.map List.length, e) := by
      rw [← ih hrest, hsize]
      congr 1
      omega
    rw [List.length_cons, headers, if_pos (by rw [spoolDataSize_eq]; omega)]
    simp only [hlen, hwalk]
    rfl

/-- **The invariant gives the representation**: the heads in the pages are the lengths of the
file's records. -/
theorem SpoolInv.rep {f : SpoolFile} {recs : List (List UInt8)} (h : SpoolInv f recs)
    (hle : f.lrecoff ≤ 4080) : SpoolRep f (recs.map List.length) := by
  have hlt := h.frecoff_lt
  have hend := h.fileEnd_le
  constructor
  case pages_eq => exact h.pages_eq
  case frecoff_even => exact h.frecoff_even
  case lrecoff_even => exact h.lrecoff_even
  case frecoff_le => exact Nat.le_of_lt hlt
  case lrecoff_le => exact hle
  case empty =>
    intro hzero
    have hlist : f.list = [] := List.length_eq_zero_iff.1 (h.pages_eq ▸ hzero)
    refine ⟨?_, h.frecoff_empty hlist⟩
    cases recs with
    | nil => exact h.recs_eq
    | cons r recs =>
      have hrest := Log.le h.log.2
      have hsize := recordLayout_size r
      rw [SpoolFile.fileEnd_of_nil hlist] at hrest
      omega
  case recs_eq => rw [List.length_map, h.recs_eq]
  case walk =>
    rw [h.recs_eq]
    exact headers_of_log h.log hend

/-! ### New pages -/

/-- **The pages `new` that the loop of `spool_append_rec` adds**, and the new `loff`: full
up to the last one, and beginning with the record's length if that is still to be stored. -/
structure NewPages (len copied loff : ℕ) (new : List SpoolPage) (loff' : ℕ) : Prop where
  done : new = [] → copied = len + 2 ∧ loff' = loff
  filled : new ≠ [] → 4080 * (new.length - 1) + loff' = len + 2 - copied ∧ 0 < loff' ∧ loff' ≤ 4080
  head : copied = 0 → recLen (fileByte new) 0 = len

/-- The bytes of the record that go into a new page. -/
theorem fillNewPage_spec (buf : ℤ → UInt8) {len : ℕ} (hlen : len < 65536) {copied : ℕ}
    (hle : copied ≤ len + 2) (spage : SpoolPage) :
    (fillNewPage buf len copied spage).2 = min (len + 2 - copied) 4080 ∧
      (fillNewPage buf len copied spage).1.addr = spage.addr ∧
      (copied = 0 → recLen (fillNewPage buf len copied spage).1.data 0 = len) := by
  by_cases hzero : copied = 0
  · subst hzero
    rw [fillNewPage, if_pos rfl, spoolDataSize_eq]
    refine ⟨?_, rfl, fun _ => ?_⟩
    · dsimp only
      omega
    · exact (recordPage_spec spage.data 0 hlen (fun i => buf i) _).1
  · rw [fillNewPage, if_neg hzero, spoolDataSize_eq]
    exact ⟨rfl, rfl, fun h => absurd h hzero⟩

/-- **The loop adds the pages the record needs**, or fails with pages of its own
to give back. -/
theorem newPages_spec (buf : ℤ → UInt8) {len : ℕ} (hlen : len < 65536)
    (supply : List (Option SpoolPage)) (copied : ℕ) (hle : copied ≤ len + 2) (loff : ℕ)
    (pages : List SpoolPage) :
    ∃ new, (∀ spage ∈ new, some spage.addr ∈ supply.map (Option.map SpoolPage.addr)) ∧
      (newPages buf len supply copied loff pages = .error (pages ++ new) ∨
        ∃ loff', newPages buf len supply copied loff pages = .ok (pages ++ new, loff') ∧
          NewPages len copied loff new loff') := by
  by_cases hdone : len + 2 = copied
  · subst hdone
    refine ⟨[], by simp, Or.inr ⟨loff, by rw [newPages_done, List.append_nil], ?_⟩⟩
    exact ⟨fun _ => ⟨rfl, rfl⟩, fun hne => absurd rfl hne, fun hzero => by omega⟩
  induction supply generalizing copied loff pages with
  | nil => exact ⟨[], by simp, Or.inl (by rw [newPages, if_neg hdone, List.append_nil])⟩
  | cons page supply ih =>
    cases page with
    | none => exact ⟨[], by simp, Or.inl (by rw [newPages, if_neg hdone, List.append_nil])⟩
    | some spage =>
      obtain ⟨hused, haddr, hhead⟩ := fillNewPage_spec buf hlen hle spage
      rw [newPages_cons hdone]
      generalize fillNewPage buf len copied spage = filled at hused haddr hhead ⊢
      obtain ⟨filled, used⟩ := filled
      dsimp only at hused haddr hhead ⊢
      have hfirst : ∀ new, recLen (fileByte (filled :: new)) 0 = recLen filled.data 0 :=
        fun new => recLen_congr (fileByte_head (by omega)) (fileByte_head (by omega))
      by_cases hlast : len + 2 = copied + used
      · -- the record ends in this page
        refine ⟨[filled], fun p hp => ?_, Or.inr ⟨used, ?_, ?_⟩⟩
        · rw [List.mem_singleton.1 hp, haddr]
          exact List.mem_cons_self
        · rw [← hlast, newPages_done]
        · refine ⟨fun hnil => absurd hnil (List.cons_ne_nil _ _), fun _ => ?_, fun hzero => ?_⟩
          · rw [List.length_singleton]
            omega
          · rw [hfirst, hhead hzero]
      · obtain ⟨new, hnew, hresult⟩ := ih (copied + used) (by omega) used
          (pages ++ [filled]) hlast
        rw [List.append_assoc, List.singleton_append] at hresult
        refine ⟨filled :: new, fun p hp => ?_, ?_⟩
        · rcases List.mem_cons.1 hp with rfl | hp
          · rw [haddr]
            exact List.mem_cons_self
          · exact List.mem_cons_of_mem _ (hnew p hp)
        · rcases hresult with herror | ⟨loff', hok, hpages⟩
          · exact Or.inl herror
          · refine Or.inr ⟨loff', hok, fun hnil => absurd hnil (List.cons_ne_nil _ _), fun _ => ?_,
              fun hzero => by rw [hfirst, hhead hzero]⟩
            have hne : new ≠ [] := fun hnil => hlast (hpages.done hnil).1.symm
            have hfilled := hpages.filled hne
            have hpos := List.length_pos_of_ne_nil hne
            rw [List.length_cons]
            omega

/-! ### `spool_append_rec` -/

/-- Some record is where its length is. -/
theorem exists_at {b : ℕ → UInt8} {p len : ℕ} (hlen : recLen b p = len) :
    ∃ r : List UInt8, r.length = len ∧ recordLayout.At b p r := by
  have hdata := @recordOf_at b p len (fun i => b (p + 2 + i.toNat)) hlen fun i _ => rfl
  exact ⟨_, length_recordOf _ len, hdata⟩

/-- A record of `len` bytes is added, or the call fails and the records stay. -/
def Stored (recs : List (List UInt8)) (len : ℕ) (a : AppendResult) : Prop :=
  a.ret = 0 ∧ (∃ r, r.length = len ∧ SpoolInv a.file (recs ++ [r])) ∨
    a.ret = -enomem ∧ SpoolInv a.file recs

/-- The pages that were there stay, and only pages that the call allocated are
given back. -/
def KeepsPages (f : SpoolFile) (supply : List (Option SpoolPage)) (a : AppendResult) : Prop :=
  f.list.map SpoolPage.addr <+: a.file.list.map SpoolPage.addr ∧
    ∀ addr ∈ a.freed, some addr ∈ supply.map (Option.map SpoolPage.addr)

/-- The last page and the new ones hold one more record. -/
theorem SpoolInv.newPages {f : SpoolFile} {recs : List (List UInt8)} (h : SpoolInv f recs)
    (buf : ℤ → UInt8) {len : ℕ} (hpos : len ≠ 0) (hlen : len < 65536) {list : List SpoolPage}
    {copied loff : ℕ} (hfill : fillLastPage f buf len = (list, copied, loff))
    {new : List SpoolPage} {loff' : ℕ} (hnew : NewPages len copied loff new loff') :
    loff' + loff' % 2 ≤ 4080 ∧ ∃ r : List UInt8, r.length = len ∧
      SpoolInv ⟨list ++ new, f.recs + 1, f.pages + new.length, f.frecoff, loff' + loff' % 2⟩
        (recs ++ [r]) := by
  obtain ⟨hlength, hbytes⟩ := fillLastPage_fileByte h buf hlen
  have hpages : f.pages + new.length = (list ++ new).length := by
    rw [hfill] at hlength
    rw [List.length_append, hlength, h.pages_eq]
  have heven := h.lrecoff_even
  -- the length of the record stands behind the last record, the offset is as it should be
  suffices hkey : recLen (fileByte (list ++ new)) f.fileEnd = len ∧ list ++ new ≠ [] ∧
      f.fileEnd + (2 + len + len % 2) =
        4080 * ((list ++ new).length - 1) + (loff' + loff' % 2) ∧
      0 < loff' ∧ loff' ≤ 4080 by
    obtain ⟨hreclen, hne, hend, hoff, hoff'⟩ := hkey
    refine ⟨by omega, ?_⟩
    obtain ⟨r, hr, hat⟩ := exists_at hreclen
    have hrne : r ≠ [] := List.ne_nil_of_length_pos (by omega)
    have hkept : ∀ i < f.fileEnd, fileByte (list ++ new) i = fileByte f.list i := by
      intro i hi
      have hle := h.fileEnd_le
      rw [hfill] at hlength hbytes
      rw [fileByte_append_of_lt _ (hlength ▸ hi.trans_le hle), hbytes i hi]
    refine ⟨r, hr, h.concat hrne hkept hat hpages hne ?_ (by omega) (by omega) (by omega)⟩
    rw [recordLayout_size, hr]
    exact hend
  rcases fillLastPage_cases h buf len with
    ⟨_, hend, hfill'⟩ | ⟨init, last, n, hlist, hoff, hn, _, hend, hfill'⟩
  · -- nothing is in the last page
    rw [hfill] at hfill'
    obtain ⟨rfl, rfl, rfl⟩ : list = f.list ∧ copied = 0 ∧ loff = 0 := by simpa using hfill'
    have hne : new ≠ [] := fun hnil => by
      have := (hnew.done hnil).1
      omega
    have hfilled := hnew.filled hne
    have hnewpos := List.length_pos_of_ne_nil hne
    refine ⟨?_, by simp [hne], ?_, hfilled.2.1, hfilled.2.2⟩
    · rw [← hnew.head rfl, hend]
      refine recLen_congr ?_ (fileByte_append_add _ _ _)
      rw [← fileByte_append_add f.list new 0, Nat.add_zero]
    · rw [List.length_append]
      omega
  · -- the last page has the length and the first `n` bytes
    rw [hfill] at hfill'
    simp only [Prod.mk.injEq] at hfill'
    obtain ⟨rfl, rfl, rfl⟩ := hfill'
    have hfilllen := recordPage_spec last.data f.lrecoff hlen (fun i => buf i) n
    refine ⟨?_, by simp, ?_⟩
    · rw [hend]
      refine (recLen_congr ?_ ?_).trans hfilllen.1
      · rw [fileByte_append_of_lt _ (by simp; omega), fileByte_concat _ _ (by omega)]
      · rw [Nat.add_assoc, fileByte_append_of_lt _ (by simp; omega),
          fileByte_concat _ _ (by omega)]
    · rw [List.length_append, List.length_append, List.length_singleton]
      by_cases hnil : new = []
      · obtain ⟨hcopied, hloff⟩ := hnew.done hnil
        rw [hnil, List.length_nil]
        omega
      · have hfilled := hnew.filled hnil
        have hnewpos := List.length_pos_of_ne_nil hnil
        omega

/-- The last page stays where it is. -/
theorem fillLastPage_addr {f : SpoolFile} {recs : List (List UInt8)} (h : SpoolInv f recs)
    (buf : ℤ → UInt8) (len : ℕ) :
    (fillLastPage f buf len).1.map SpoolPage.addr = f.list.map SpoolPage.addr ∧
      (fillLastPage f buf len).2.1 ≤ len + 2 := by
  rcases fillLastPage_cases h buf len with
    ⟨_, _, hfill⟩ | ⟨init, last, n, hlist, hoff, hn, _, _, hfill⟩
  · rw [hfill]
    exact ⟨rfl, Nat.zero_le _⟩
  · rw [hfill, hlist, List.map_append, List.map_append]
    refine ⟨rfl, ?_⟩
    dsimp only
    omega

/-- **`spool_append_rec` adds a record of the length it is given**, whatever
becomes of the bytes, or fails. -/
theorem spoolAppendRec_stored {f : SpoolFile} {recs : List (List UInt8)} (h : SpoolInv f recs)
    (hle : f.lrecoff ≤ 4080) (buf : ℤ → UInt8) {len : ℕ} (hpos : len ≠ 0) (hlen : len < 65536)
    (supply : List (Option SpoolPage)) :
    ∃ a, spoolAppendRec f buf len supply = some a ∧ Stored recs len a ∧ a.file.lrecoff ≤ 4080 ∧
      KeepsPages f supply a := by
  obtain ⟨hlength, hbytes⟩ := fillLastPage_fileByte h buf hlen
  obtain ⟨haddr, hcopied⟩ := fillLastPage_addr h buf len
  obtain ⟨list, copied, loff, hfill⟩ : ∃ list copied loff,
      fillLastPage f buf len = (list, copied, loff) := ⟨_, _, _, rfl⟩
  have hnewPages := fun new loff' (hnew : NewPages len copied loff new loff') =>
    h.newPages buf hpos hlen hfill hnew
  rw [hfill] at hlength hbytes haddr hcopied
  obtain ⟨hok, herror⟩ := spoolAppendRec_eq h hpos supply hfill hcopied
  obtain ⟨new, hsupply, hresult⟩ := newPages_spec buf hlen supply copied hcopied loff []
  rw [List.nil_append] at hresult
  rcases hresult with hfailed | ⟨loff', hdone, hnew⟩
  · refine ⟨_, herror new hfailed, Or.inr ⟨rfl, h.withList hlength hbytes⟩, hle, ?_, ?_⟩
    · exact haddr ▸ List.prefix_rfl
    · intro addr hmem
      obtain ⟨spage, hspage, rfl⟩ := List.mem_map.1 hmem
      exact hsupply spage hspage
  · obtain ⟨hoff, hinv⟩ := hnewPages new loff' hnew
    refine ⟨_, hok new loff' hdone, Or.inl ⟨rfl, hinv⟩, hoff, ?_, fun addr hmem => ?_⟩
    · dsimp only
      rw [List.map_append, ← haddr]
      exact List.prefix_append _ _
    · exact absurd hmem List.not_mem_nil

/-! ### `spool_grab_rec` -/

/-- The position behind the first record. -/
def behindFirst (f : SpoolFile) : ℕ :=
  if f.recs = 0 then f.frecoff
  else
    let len := recLen (fileByte f.list) f.frecoff
    f.frecoff + 2 + len + len % 2

/-- The first pages are given back, none of them with a byte behind the first
record. -/
def FreesRead (f : SpoolFile) (g : GrabResult) : Prop :=
  ∃ k, g.freed = (f.list.take k).map SpoolPage.addr ∧ g.file.list = f.list.drop k ∧
    4080 * k + g.file.frecoff = behindFirst f

/-- The end of a grab does not move the file's end. -/
theorem grabFinish_lrecoff {f : SpoolFile} {s : Grab} {g : GrabResult}
    (hg : grabFinish f s = some g) : g.file.lrecoff = f.lrecoff := by
  unfold grabFinish at hg
  dsimp only at hg
  split at hg
  · split at hg
    · cases hg
    · obtain rfl := Option.some.inj hg
      rfl
  · obtain rfl := Option.some.inj hg
    rfl

/-- `lrecoff` is left as it is, also when the last page is freed. -/
theorem spoolGrabRec_lrecoff {f : SpoolFile} {buf : ℕ → UInt8} {cap : ℕ} {g : GrabResult}
    (hg : spoolGrabRec f buf cap = some g) : g.file.lrecoff = f.lrecoff := by
  unfold spoolGrabRec at hg
  split at hg
  · obtain rfl := Option.some.inj hg
    rfl
  split at hg
  · obtain rfl := Option.some.inj hg
    rfl
  split at hg
  · cases hg
  split at hg
  · cases hg
  obtain ⟨s, _, hfinish⟩ := Option.bind_eq_some_iff.1 hg
  exact grabFinish_lrecoff hfinish

/-- **What a grab does to the pages.** It gives back those read through, keeps the invariant
with one record less, and succeeds exactly when there was one. -/
theorem spoolGrabRec_frees {f : SpoolFile} {recs : List (List UInt8)} (h : SpoolInv f recs)
    (buf : ℕ → UInt8) {cap : ℕ} (hcap : cap ≠ 0) :
    ∃ g, spoolGrabRec f buf cap = some g ∧ FreesRead f g ∧ SpoolInv g.file recs.tail ∧
      (g.ret = 0 ↔ recs ≠ []) ∧ g.file.lrecoff = f.lrecoff := by
  cases recs with
  | nil =>
    have hrecs : f.recs = 0 := h.recs_eq
    refine ⟨_, spoolGrabRec_empty h buf hcap, ⟨0, rfl, rfl, ?_⟩, h, by simp [enoent], rfl⟩
    rw [behindFirst, if_pos hrecs, Nat.mul_zero, Nat.zero_add]
  | cons r recs =>
    obtain ⟨g, hg, hret, _, _, _, hfile, k, hpos, hfreed, hlist⟩ := spoolGrabRec_spec h buf hcap
    have hrecs : f.recs ≠ 0 := by
      rw [h.recs_eq]
      exact Nat.succ_ne_zero _
    refine ⟨g, hg, ⟨k, hfreed, hlist, ?_⟩, hfile, by simp [hret], ?_⟩
    · have hsize := recordLayout_size r
      rw [behindFirst, if_neg hrecs, h.log.1.1]
      dsimp only
      omega
    · exact spoolGrabRec_lrecoff hg

/-! ### Runs -/

/-- **The pages hold records as long as** those appended and not yet grabbed; the bytes are
another matter, for a record that is cut by a page's end gets wrong ones. -/
structure RepInv (ls : List SpoolEvent) (f : SpoolFile) : Prop where
  file : ∃ recs, SpoolInv f recs ∧
    recs.map List.length = ((appended ls).drop (grabbed ls)).map List.length
  grabbed_le : grabbed ls ≤ (appended ls).length
  lrecoff_le : f.lrecoff ≤ 4080

/-- One append or grab keeps the representation, and the records read so far are the appended
ones in order. -/
theorem repInv_step {ls : List SpoolEvent} {f f' : SpoolFile} {e : SpoolEvent} (h : RepInv ls f)
    (hstep : SpoolStep f e f') : RepInv (ls ++ [e]) f' := by
  obtain ⟨recs, hfile, hlens⟩ := h.file
  have hgrabbed := h.grabbed_le
  cases hstep with
  | @append buf len supply a hpos hlen ha =>
    obtain ⟨a', ha', hstored, hle, _⟩ :=
      spoolAppendRec_stored hfile h.lrecoff_le buf hpos hlen supply
    obtain rfl := Option.some.inj (ha.symm.trans ha')
    have hgr : grabbed [.append buf len supply a.ret] = 0 := rfl
    rcases hstored with ⟨hret, r, hr, hinv⟩ | ⟨hret, hinv⟩
    · have happ : appended [.append buf len supply a.ret] = [recordOf buf len] := by
        simp [appended, hret]
      refine ⟨⟨_, hinv, ?_⟩, ?_, hle⟩
      · rw [appended_concat, grabbed_concat, happ, hgr, Nat.add_zero,
          List.drop_append_of_le_length hgrabbed, List.map_append, List.map_append, hlens]
        simp only [List.map_cons, List.map_nil, hr, length_recordOf]
      · rw [appended_concat, grabbed_concat, happ, hgr, List.length_append]
        omega
    · have happ : appended [.append buf len supply a.ret] = [] := by
        simp [appended, hret, enomem]
      refine ⟨⟨_, hinv, ?_⟩, ?_, hle⟩
      · rw [appended_concat, grabbed_concat, happ, hgr, List.append_nil, Nat.add_zero, hlens]
      · rw [appended_concat, grabbed_concat, happ, hgr, List.append_nil]
        exact hgrabbed
  | @grab buf cap g hcap hg =>
    obtain ⟨g', hg', _, hinv, hret, hlrecoff⟩ := spoolGrabRec_frees hfile buf hcap
    obtain rfl := Option.some.inj (hg.symm.trans hg')
    have happ : appended [.grab buf cap g.ret g.len g.buf] = [] := rfl
    have hlength : recs.length = (appended ls).length - grabbed ls := by
      have := congrArg List.length hlens
      rwa [List.length_map, List.length_map, List.length_drop] at this
    have hgr : grabbed [.grab buf cap g.ret g.len g.buf] = if recs ≠ [] then 1 else 0 := by
      by_cases hne : recs = []
      · simp [grabbed, hret, hne]
      · simp [grabbed, hret, hne]
    have hle : g.file.lrecoff ≤ 4080 := by rw [hlrecoff]; exact h.lrecoff_le
    refine ⟨⟨_, hinv, ?_⟩, ?_, hle⟩
    · rw [appended_concat, grabbed_concat, happ, hgr, List.append_nil, List.map_tail, hlens]
      by_cases hne : recs = []
      · rw [if_neg (not_not.2 hne), Nat.add_zero, ← hlens, hne]
        rfl
      · rw [if_pos hne, ← List.map_tail, List.tail_drop]
    · rw [appended_concat, grabbed_concat, happ, hgr, List.append_nil]
      split
      · rename_i hne
        have := List.length_pos_of_ne_nil hne
        omega
      · exact hgrabbed

/-- The representation holds in every state that a run reaches. -/
theorem repInv_run {ls : List SpoolEvent} {f : SpoolFile} (hrun : Run SpoolStep allocSpool ls f) :
    RepInv ls f :=
  hrun.history ⟨⟨[], spoolInv_alloc, rfl⟩, Nat.le_refl 0, Nat.zero_le _⟩ fun _ _ _ _ h hstep =>
    repInv_step h hstep

/-- **The representation of a spool file.**  After every run from `alloc_spool`
the pages hold records as long as those appended and not yet grabbed, in order and
up to `lrecoff` of the last page.  So no call finds a page missing or runs into a
`BUG_ON`; an append gives back only pages that it allocated itself, and a grab only
pages without a byte of the records to come. -/
theorem spoolFile_rep {ls : List SpoolEvent} {f : SpoolFile}
    (hrun : Run SpoolStep allocSpool ls f) :
    SpoolRep f (((appended ls).drop (grabbed ls)).map List.length) ∧
      (∀ (buf : ℤ → UInt8) (len : ℕ) (supply : List (Option SpoolPage)), len ≠ 0 → len < 65536 →
        ∃ a, spoolAppendRec f buf len supply = some a ∧ KeepsPages f supply a) ∧
      ∀ (buf : ℕ → UInt8) (cap : ℕ), cap ≠ 0 →
        ∃ g, spoolGrabRec f buf cap = some g ∧ FreesRead f g := by
  have h := repInv_run hrun
  obtain ⟨recs, hfile, hlens⟩ := h.file
  refine ⟨hlens ▸ hfile.rep h.lrecoff_le, fun buf len supply hpos hlen => ?_,
    fun buf cap hcap => ?_⟩
  · obtain ⟨a, ha, _, _, hkeeps⟩ :=
      spoolAppendRec_stored hfile h.lrecoff_le buf hpos hlen supply
    exact ⟨a, ha, hkeeps⟩
  · obtain ⟨g, hg, hfrees, _⟩ := spoolGrabRec_frees hfile buf hcap
    exact ⟨g, hg, hfrees⟩

/-- A record of 4079 bytes, cut in two pages, is appended and grabbed. -/
theorem spoolFile_rep_cut : ∃ ls f, Run SpoolStep allocSpool ls f ∧ f.pages = 2 ∧
    f.lrecoff = 2 ∧ SpoolRep f [4079] := by
  let buf : ℤ → UInt8 := fun _ => 1
  let supply : List (Option SpoolPage) := [some ⟨4096, fun _ => 0⟩, some ⟨8192, fun _ => 0⟩]
  have hcall : (spoolAppendRec allocSpool buf 4079 supply).map
      (fun a => (a.ret, a.file.pages, a.file.lrecoff)) = some (0, 2, 2) := by
    decide +kernel
  obtain ⟨a, ha, hcall⟩ := Option.map_eq_some_iff.1 hcall
  simp only [Prod.mk.injEq] at hcall
  obtain ⟨hret, hpages, hlrecoff⟩ := hcall
  have hrun : Run SpoolStep allocSpool [.append buf 4079 supply a.ret] a.file :=
    Run.nil.snoc (SpoolStep.append (by decide) (by decide) ha)
  have hlens : ((appended [.append buf 4079 supply a.ret]).drop
      (grabbed [.append buf 4079 supply a.ret])).map List.length = [4079] := by
    simp [appended, grabbed, hret, length_recordOf]
  exact ⟨_, a.file, hrun, hpages, hlrecoff, hlens ▸ (spoolFile_rep hrun).1⟩

end Hvf
