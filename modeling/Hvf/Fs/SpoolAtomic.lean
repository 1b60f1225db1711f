/-
# An append that fails

`spool_append_rec` writes the length and the first data behind the last record
before it knows whether it gets the pages for the rest.  When it does not, it gives
back those it got; what it wrote is behind `lrecoff`, where nothing is read before it
is written again (`Twin`).  So the file goes on as if there had been no call.
-/

import Hvf.Fs.SpoolRep

namespace Hvf

open PagedLog StepRun

/-- The addresses of the pages that the `alloc_pages` calls of the loop of
`spool_append_rec` return. -/
def takenPages (buf : ℤ → UInt8) (len : ℕ) : List (Option SpoolPage) → ℕ → List ℕ
  | some spage :: supply, copied =>
      if len + 2 = copied then []
      else spage.addr :: takenPages buf len supply (copied + (fillNewPage buf len copied spage).2)
  | _, _ => []

/-- The pages that `spool_append_rec` gets. -/
def SpoolFile.taken (f : SpoolFile) (buf : ℤ → UInt8) (len : ℕ)
    (supply : List (Option SpoolPage)) : List ℕ :=
  takenPages buf len supply (fillLastPage f buf len).2.1

/-- Two files with the same records, on the same pages and at the same places; the
bytes that belong to no record may differ. -/
structure Twin (f f' : SpoolFile) : Prop where
  recs : ∃ recs, SpoolInv f recs ∧ SpoolInv f' recs
  addrs : f'.list.map SpoolPage.addr = f.list.map SpoolPage.addr
  frecoff : f'.frecoff = f.frecoff
  lrecoff : f'.lrecoff = f.lrecoff
  lrecoff_le : f.lrecoff ≤ 4080

variable {f f' : SpoolFile} {recs : List (List UInt8)} {buf : ℤ → UInt8} {len : ℕ}

/-- Twins have the same number of pages in the list. -/
theorem Twin.length (h : Twin f f') : f'.list.length = f.list.length := by
  have := congrArg List.length h.addrs
  rwa [List.length_map, List.length_map] at this

/-- Twins have the same page count. -/
theorem Twin.pages (h : Twin f f') : f'.pages = f.pages := by
  obtain ⟨recs, hf, hf'⟩ := h.recs
  rw [hf'.pages_eq, hf.pages_eq, h.length]

/-- Twins end at the same byte. -/
theorem Twin.fileEnd (h : Twin f f') : f'.fileEnd = f.fileEnd := by
  have hnil : f'.list = [] ↔ f.list = [] := by
    rw [← List.length_eq_zero_iff, h.length, List.length_eq_zero_iff]
  simp only [SpoolFile.fileEnd, hnil, h.length, h.lrecoff]

/-- Being twins goes both ways: what lies behind the end of either is left open. -/
theorem Twin.symm (h : Twin f f') : Twin f' f := by
  obtain ⟨recs, hf, hf'⟩ := h.recs
  exact ⟨⟨recs, hf', hf⟩, h.addrs.symm, h.frecoff.symm, h.lrecoff.symm, h.lrecoff ▸ h.lrecoff_le⟩

/-! ### Appends -/

/-- What is not in the last page begins in a new one. -/
theorem fillLastPage_full (buf : ℤ → UInt8) (len : ℕ) (h : SpoolInv f recs)
    (hne : (fillLastPage f buf len).2.1 ≠ len + 2) :
    f.fileEnd + (fillLastPage f buf len).2.1 = 4080 * f.list.length := by
  rcases fillLastPage_cases h buf len with
    ⟨_, hend, hfill⟩ | ⟨init, last, n, hlist, hoff, hn, _, hend, hfill⟩
  · rw [hfill]
    exact hend
  · rw [hfill] at hne ⊢
    rw [hend, hlist, List.length_append, List.length_singleton]
    dsimp only at hne ⊢
    omega

/-- What is written of a record does not depend on what was there. -/
theorem recordPage_congr (data data' : ℕ → UInt8) (off len : ℕ) (src : ℕ → UInt8) {n j : ℕ}
    (hj : j < 2 + n) :
    memcpy (setRecLen data' off len) (off + 2) src 0 n (off + j) =
      memcpy (setRecLen data off len) (off + 2) src 0 n (off + j) := by
  by_cases hdata : 2 ≤ j
  · rw [memcpy, memcpy, if_pos (by omega), if_pos (by omega)]
  · rw [memcpy, memcpy, if_neg (by omega), if_neg (by omega), setRecLen, setRecLen]
    by_cases hzero : j = 0
    · have hne : off + j ≠ off + 1 := by omega
      rw [Function.update_of_ne hne, Function.update_of_ne hne, hzero, Nat.add_zero,
        Function.update_self, Function.update_self]
    · have hone : off + j = off + 1 := by omega
      rw [hone, Function.update_self, Function.update_self]

/-- The last page gets the same bytes in both files. -/
theorem Twin.fillLastPage (h : Twin f f') (buf : ℤ → UInt8) (len : ℕ) :
    (Hvf.fillLastPage f' buf len).2 = (Hvf.fillLastPage f buf len).2 ∧
      ∀ j < (Hvf.fillLastPage f buf len).2.1,
        fileByte (Hvf.fillLastPage f' buf len).1 (f.fileEnd + j) =
          fileByte (Hvf.fillLastPage f buf len).1 (f.fileEnd + j) := by
  obtain ⟨recs, hf, hf'⟩ := h.recs
  have hcopied : lastCopied f' len = lastCopied f len := by
    rw [lastCopied, lastCopied, h.pages, h.lrecoff]
  rcases fillLastPage_cases hf buf len with
    ⟨hzero, _, hfill⟩ | ⟨init, last, n, hlist, hoff, hn, hlast, hend, hfill⟩
  · rcases fillLastPage_cases hf' buf len with ⟨_, _, hfill'⟩ | ⟨_, _, n', _, _, _, hlast', _, _⟩
    · rw [hfill, hfill']
      exact ⟨rfl, fun j hj => absurd hj (Nat.not_lt_zero j)⟩
    · omega
  · rcases fillLastPage_cases hf' buf len with
      ⟨hzero', _, _⟩ | ⟨init', last', n', hlist', hoff', hn', hlast', hend', hfill'⟩
    · omega
    · have hlength := h.length
      rw [hlist, hlist', List.length_append, List.length_append, List.length_singleton,
        List.length_singleton] at hlength
      have hinit : init'.length = init.length := Nat.add_right_cancel hlength
      obtain rfl : n' = n := by omega
      rw [hfill, hfill', h.lrecoff, hend]
      refine ⟨rfl, fun j hj => ?_⟩
      dsimp only at hj
      rw [Nat.add_assoc, ← hinit, fileByte_concat _ _ (by omega), hinit,
        fileByte_concat _ _ (by omega)]
      exact recordPage_congr last.data last'.data f.lrecoff len (fun i : ℕ => buf i) hj

/-- The record that an append stores is the same in both files. -/
theorem stored_congr {b b' : ℕ → UInt8} {r r' : List UInt8} {p : ℕ} (hr : recordLayout.At b p r)
    (hr' : recordLayout.At b' p r') (hlen : r'.length = r.length)
    (hb : ∀ j < r.length + 2, b' (p + j) = b (p + j)) : r' = r := by
  refine List.ext_getElem hlen fun i hi' hi => ?_
  rw [← hr.2 i hi, ← hr'.2 i hi', Nat.add_assoc]
  exact hb (2 + i) (by omega)

/-- **The same append** to both files. -/
theorem Twin.append (h : Twin f f') (buf : ℤ → UInt8) (hpos : len ≠ 0) (hlen : len < 65536)
    (supply : List (Option SpoolPage)) :
    ∃ a a', spoolAppendRec f buf len supply = some a ∧
      spoolAppendRec f' buf len supply = some a' ∧ a'.ret = a.ret ∧ a'.freed = a.freed ∧
      Twin a.file a'.file := by
  obtain ⟨recs, hf, hf'⟩ := h.recs
  obtain ⟨hfill, hbytes⟩ := h.fillLastPage buf len
  obtain ⟨haddr, hcopied⟩ := fillLastPage_addr hf buf len
  obtain ⟨haddr', -⟩ := fillLastPage_addr hf' buf len
  obtain ⟨hlength, hkept⟩ := fillLastPage_fileByte hf buf hlen
  obtain ⟨hlength', hkept'⟩ := fillLastPage_fileByte hf' buf hlen
  have hfull := fillLastPage_full buf len hf
  rcases hf₁ : Hvf.fillLastPage f buf len with ⟨list, copied, loff⟩
  rcases hf₂ : Hvf.fillLastPage f' buf len with ⟨list', copied', loff'⟩
  rw [hf₁] at hfill haddr hcopied hlength hkept hfull hbytes
  rw [hf₂] at hfill haddr' hlength' hkept' hbytes
  obtain ⟨rfl, rfl⟩ : copied' = copied ∧ loff' = loff := Prod.mk.inj hfill
  dsimp only at haddr haddr' hlength hlength' hkept hkept' hfull hbytes hcopied
  have haddrs : list'.map SpoolPage.addr = list.map SpoolPage.addr := by
    rw [haddr, haddr', h.addrs]
  have hsame : list'.length = list.length := by rw [hlength, hlength', h.length]
  obtain ⟨hok, herror⟩ := spoolAppendRec_eq hf hpos supply hf₁ hcopied
  obtain ⟨hok', herror'⟩ := spoolAppendRec_eq hf' hpos supply hf₂ hcopied
  obtain ⟨new, -, hresult⟩ := newPages_spec buf hlen supply copied' hcopied loff' []
  rw [List.nil_append] at hresult
  rcases hresult with hfailed | ⟨loff₁, hdone, hnew⟩
  · refine ⟨_, _, herror new hfailed, herror' new hfailed, rfl, rfl, ?_⟩
    exact ⟨⟨recs, hf.withList hlength hkept, hf'.withList hlength' hkept'⟩, haddrs, h.frecoff,
      h.lrecoff, h.lrecoff_le⟩
  · obtain ⟨hle, r, hr, hinv⟩ := hf.newPages buf hpos hlen hf₁ hnew
    obtain ⟨-, r', hr', hinv'⟩ := hf'.newPages buf hpos hlen hf₂ hnew
    refine ⟨_, _, hok new loff₁ hdone, hok' new loff₁ hdone, rfl, rfl, ?_⟩
    have hrr : r' = r := by
      have hend : f.fileEnd = f.frecoff + (recs.map recordLayout.size).sum := Log.end_eq hf.log
      have hat := Log.last hinv.log
      have hat' := Log.last hinv'.log
      dsimp only at hat hat'
      rw [h.frecoff, ← hend] at hat'
      rw [← hend] at hat
      refine stored_congr hat hat' (hr'.trans hr.symm) fun j hj => ?_
      rw [hr] at hj
      by_cases hlast : f.fileEnd + j < 4080 * list.length
      · -- in the last page
        rw [fileByte_append_of_lt _ hlast, fileByte_append_of_lt _ (hsame ▸ hlast)]
        refine hbytes j ?_
        by_contra hge
        have := hfull (by omega)
        omega
      · obtain ⟨i, hi⟩ := Nat.exists_eq_add_of_le (Nat.le_of_not_lt hlast)
        rw [hi, fileByte_append_add, ← hsame, fileByte_append_add]
    rw [hrr] at hinv'
    refine ⟨⟨_, hinv, hinv'⟩, ?_, h.frecoff, rfl, hle⟩
    dsimp only
    rw [List.map_append, List.map_append, haddrs]

/-! ### Grabs -/

/-- **The same grab** from both files. -/
theorem Twin.grab (h : Twin f f') (buf : ℕ → UInt8) {cap : ℕ} (hcap : cap ≠ 0) :
    ∃ g g', spoolGrabRec f buf cap = some g ∧ spoolGrabRec f' buf cap = some g' ∧
      g'.ret = g.ret ∧ g'.len = g.len ∧ g'.buf = g.buf ∧ g'.freed = g.freed ∧
      Twin g.file g'.file := by
  obtain ⟨recs, hf, hf'⟩ := h.recs
  cases recs with
  | nil =>
    exact ⟨_, _, spoolGrabRec_empty hf buf hcap, spoolGrabRec_empty hf' buf hcap, rfl, rfl, rfl,
      rfl, h⟩
  | cons r recs =>
    obtain ⟨g, hg, hret, hlen, hdata, hkept, hfile, k, hpos, hfreed, hlist⟩ :=
      spoolGrabRec_spec hf buf hcap
    obtain ⟨g', hg', hret', hlen', hdata', hkept', hfile', k', hpos', hfreed', hlist'⟩ :=
      spoolGrabRec_spec hf' buf hcap
    have hlt := hfile.frecoff_lt
    have hlt' := hfile'.frecoff_lt
    rw [h.frecoff] at hpos'
    obtain rfl : k' = k := by omega
    have haddrs : ∀ l : List SpoolPage, (l.take k').map SpoolPage.addr =
        (l.map SpoolPage.addr).take k' := fun l => List.map_take
    refine ⟨g, g', hg, hg', hret'.trans hret.symm, hlen'.trans hlen.symm, ?_, ?_, ?_⟩
    · funext i
      by_cases hi : i < min cap r.length
      · rw [hdata i (by omega) (by omega), hdata' i (by omega) (by omega)]
      · rw [hkept i (by omega), hkept' i (by omega)]
    · rw [hfreed, hfreed', haddrs, haddrs, h.addrs]
    · have hl := spoolGrabRec_lrecoff hg
      refine ⟨⟨recs, hfile, hfile'⟩, ?_, by omega, ?_, hl ▸ h.lrecoff_le⟩
      · rw [hlist, hlist', List.map_drop, List.map_drop, h.addrs]
      · rw [hl, spoolGrabRec_lrecoff hg', h.lrecoff]

/-- **A step of a file is a step of its twin**, with the same event, and it leaves twins again.
-/
theorem Twin.step {e : SpoolEvent} {g : SpoolFile} (h : Twin f f') (hstep : SpoolStep f e g) :
    ∃ g', SpoolStep f' e g' ∧ Twin g g' := by
  cases hstep with
  | @append buf len supply a hpos hlen ha =>
    obtain ⟨a₁, a', ha₁, ha', hret, -, htwin⟩ := h.append buf hpos hlen supply
    obtain rfl := Option.some.inj (ha.symm.trans ha₁)
    exact ⟨a'.file, hret ▸ SpoolStep.append hpos hlen ha', htwin⟩
  | @grab buf cap g hcap hg =>
    obtain ⟨g₁, g', hg₁, hg', hret, hlen, hbuf, -, htwin⟩ := h.grab buf hcap
    obtain rfl := Option.some.inj (hg.symm.trans hg₁)
    have hstep' := SpoolStep.grab hcap hg'
    rw [hret, hlen, hbuf] at hstep'
    exact ⟨g'.file, hstep', htwin⟩

/-- **Twins behave alike**, under every sequence of calls. -/
theorem Twin.run {ls : List SpoolEvent} {g : SpoolFile} (h : Twin f f')
    (hrun : Run SpoolStep f ls g) : ∃ g', Run SpoolStep f' ls g' ∧ Twin g g' := by
  have hsim : ∀ f f' e g, Twin f f' → SpoolStep f e g → ∃ g', SpoolStep f' e g' ∧ Twin g g' :=
    fun _ _ _ _ htwin hstep => htwin.step hstep
  exact Run.simulate hsim h hrun

/-! ### The failed call -/

/-- The loop ends with the pages it got, whether it succeeds or fails. -/
theorem newPages_taken (buf : ℤ → UInt8) (len : ℕ) (supply : List (Option SpoolPage))
    (copied loff : ℕ) (pages : List SpoolPage) :
    (∀ pages', newPages buf len supply copied loff pages = .error pages' →
      pages'.map SpoolPage.addr = pages.map SpoolPage.addr ++ takenPages buf len supply copied) ∧
    ∀ pages' loff', newPages buf len supply copied loff pages = .ok (pages', loff') →
      pages'.map SpoolPage.addr = pages.map SpoolPage.addr ++ takenPages buf len supply copied := by
  have hend : ∀ (copied loff : ℕ) (pages : List SpoolPage)
      (res : Except (List SpoolPage) (List SpoolPage × ℕ)),
      res = (if len + 2 = copied then .ok (pages, loff) else .error pages) →
      (∀ pages', res = .error pages' → pages'.map SpoolPage.addr = pages.map SpoolPage.addr ++ []) ∧
        ∀ pages' loff', res = .ok (pages', loff') →
          pages'.map SpoolPage.addr = pages.map SpoolPage.addr ++ [] := by
    rintro copied loff pages res rfl
    rw [List.append_nil]
    split
    · refine ⟨fun _ h => (nomatch h), fun pages' loff' h => ?_⟩
      rw [(Prod.mk.inj (Except.ok.inj h)).1]
    · refine ⟨fun pages' h => ?_, fun _ _ h => (nomatch h)⟩
      rw [Except.error.inj h]
  induction supply generalizing copied loff pages with
  | nil => exact hend _ _ _ _ rfl
  | cons page supply ih =>
    cases page with
    | none => exact hend _ _ _ _ rfl
    | some spage =>
      by_cases hdone : len + 2 = copied
      · rw [takenPages, if_pos hdone]
        refine hend copied loff _ _ ?_
        rw [if_pos hdone, hdone.symm, newPages_done]
      · have haddr : (fillNewPage buf len copied spage).1.addr = spage.addr := by
          rw [fillNewPage]
          split
          · rfl
          · rfl
        have hcons : ∀ taken : List ℕ,
            (pages ++ [(fillNewPage buf len copied spage).1]).map SpoolPage.addr ++ taken =
              pages.map SpoolPage.addr ++ spage.addr :: taken := by
          intro taken
          rw [List.map_append, List.map_singleton, haddr, List.append_assoc, List.singleton_append]
        obtain ⟨herror, hok⟩ := ih (copied + (fillNewPage buf len copied spage).2)
          (fillNewPage buf len copied spage).2 (pages ++ [(fillNewPage buf len copied spage).1])
        rw [newPages_cons hdone, takenPages, if_neg hdone, ← hcons]
        exact ⟨herror, hok⟩

/-- What is copied into the last page is the room behind the end, up to the record's length. -/
theorem fillLastPage_copied (h : SpoolInv f recs) (buf : ℤ → UInt8) (len : ℕ) :
    (Hvf.fillLastPage f buf len).2.1 = lastCopied f len := by
  rcases fillLastPage_cases h buf len with
    ⟨hzero, _, hfill⟩ | ⟨_, _, n, _, _, _, hn, _, hfill⟩
  · rw [hfill, hzero]
  · rw [hfill, hn]

/-- **Nothing of the file is changed** but bytes behind `lrecoff` of the last page, which
belong to no record. -/
structure Untouched (f f' : SpoolFile) : Prop where
  recs : f'.recs = f.recs
  pages : f'.pages = f.pages
  frecoff : f'.frecoff = f.frecoff
  lrecoff : f'.lrecoff = f.lrecoff
  list : f'.list.map SpoolPage.addr = f.list.map SpoolPage.addr
  bytes : ∀ i < f.fileEnd, fileByte f'.list i = fileByte f.list i

/-- **A page is missing, and nothing has happened.** The call gives `-ENOMEM`, the file's
records and end are as before, and every page obtained is given back. -/
theorem spoolAppendRec_untouched (buf : ℤ → UInt8) (h : SpoolInv f recs)
    (hle : f.lrecoff ≤ 4080) (hpos : len ≠ 0)
    (hlen : len < 65536) {supply : List (Option SpoolPage)}
    (hmissing : ∃ i < pagesNeeded f len, ∀ spage, supply[i]? ≠ some (some spage)) :
    ∃ a, spoolAppendRec f buf len supply = some a ∧ a.ret = -enomem ∧ Untouched f a.file ∧
      a.freed = f.taken buf len supply ∧ Twin f a.file := by
  obtain ⟨hlength, hbytes⟩ := fillLastPage_fileByte h buf hlen
  obtain ⟨haddr, hcopied⟩ := fillLastPage_addr h buf len
  have hlast : (fillLastPage f buf len).2.1 = lastCopied f len := fillLastPage_copied h buf len
  obtain ⟨list, copied, loff, hfill⟩ : ∃ list copied loff,
      fillLastPage f buf len = (list, copied, loff) := ⟨_, _, _, rfl⟩
  rw [SpoolFile.taken]
  rw [hfill] at hlength hbytes haddr hcopied hlast ⊢
  dsimp only at hlast hcopied
  rw [pagesNeeded, ← hlast] at hmissing
  obtain ⟨pages, herror⟩ := newPages_error buf loff [] hcopied hmissing
  have htaken := (newPages_taken buf len supply copied loff []).1 pages herror
  rw [List.map_nil, List.nil_append] at htaken
  refine ⟨_, (spoolAppendRec_eq h hpos supply hfill hcopied).2 pages herror, rfl, ?_, htaken, ?_⟩
  · exact ⟨rfl, rfl, rfl, rfl, haddr, hbytes⟩
  · exact ⟨⟨recs, h, h.withList hlength hbytes⟩, haddr, rfl, rfl, hle⟩

/-- **A failed append changes nothing.**  In every file that appends and grabs
lead to, a call for which a page is missing, whichever of the pages it needs that is,
returns `-ENOMEM`; nothing is changed but bytes that belong to no record, the pages
that it got are given back, each once, and the runs that follow are those there
would be without the call. -/
theorem spoolAppendRec_atomic {ls : List SpoolEvent} {f : SpoolFile}
    (hrun : Run SpoolStep allocSpool ls f) (buf : ℤ → UInt8) {len : ℕ} (hpos : len ≠ 0)
    (hlen : len < 65536) {supply : List (Option SpoolPage)}
    (hmissing : ∃ i < pagesNeeded f len, ∀ spage, supply[i]? ≠ some (some spage)) :
    ∃ a, spoolAppendRec f buf len supply = some a ∧ a.ret = -enomem ∧ Untouched f a.file ∧
      a.freed = f.taken buf len supply ∧
      (∀ ls' g, Run SpoolStep f ls' g → ∃ g', Run SpoolStep a.file ls' g' ∧ Twin g g') ∧
      ∀ ls' g', Run SpoolStep a.file ls' g' → ∃ g, Run SpoolStep f ls' g ∧ Twin g' g := by
  have h := repInv_run hrun
  obtain ⟨recs, hfile, -⟩ := h.file
  obtain ⟨a, ha, hret, huntouched, hfreed, htwin⟩ :=
    spoolAppendRec_untouched buf hfile h.lrecoff_le hpos hlen hmissing
  exact ⟨a, ha, hret, huntouched, hfreed, fun _ _ hrun' => htwin.run hrun',
    fun _ _ hrun' => htwin.symm.run hrun'⟩

/-- With a page of 4079 bytes in front, and the second of the two pages missing: the first
goes back, and later calls cannot tell. -/
theorem spoolAppendRec_atomic_second : ∃ ls f a, Run SpoolStep allocSpool ls f ∧ f.lrecoff = 2 ∧
    spoolAppendRec f (fun _ => 2) 8200 [some ⟨12288, fun _ => 0⟩, none] = some a ∧
      a.ret = -enomem ∧ Untouched f a.file ∧ a.freed = [12288] := by
  let buf : ℤ → UInt8 := fun _ => 1
  let supply : List (Option SpoolPage) := [some ⟨4096, fun _ => 0⟩, some ⟨8192, fun _ => 0⟩]
  have hcall : (spoolAppendRec allocSpool buf 4079 supply).map
      (fun a => (a.ret, a.file.pages, a.file.lrecoff)) = some (0, 2, 2) := by
    decide +kernel
  obtain ⟨a, ha, hcall⟩ := Option.map_eq_some_iff.1 hcall
  simp only [Prod.mk.injEq] at hcall
  obtain ⟨-, hpages, hlrecoff⟩ := hcall
  have hrun : Run SpoolStep allocSpool [.append buf 4079 supply a.ret] a.file :=
    Run.nil.snoc (SpoolStep.append (by decide) (by decide) ha)
  have hcopied : lastCopied a.file 8200 = 4078 := by
    rw [lastCopied, hpages, hlrecoff]
    decide
  have hneeded : pagesNeeded a.file 8200 = 2 := by
    rw [pagesNeeded, hcopied]
  have hmissing : ∃ i < pagesNeeded a.file 8200, ∀ spage,
      ([some ⟨12288, fun _ => 0⟩, none] : List (Option SpoolPage))[i]? ≠ some (some spage) :=
    ⟨1, by rw [hneeded]; decide, fun spage h => by cases h⟩
  obtain ⟨b, hb, hret, huntouched, hfreed, -⟩ :=
    spoolAppendRec_atomic hrun (fun _ => 2) (by decide) (by decide) hmissing
  refine ⟨_, _, b, hrun, hlrecoff, hb, hret, huntouched, ?_⟩
  obtain ⟨recs, hfile, -⟩ := (repInv_run hrun).file
  rw [hfreed, SpoolFile.taken, fillLastPage_copied hfile, hcopied]
  rfl

end Hvf
