/-
# The pages of a spool file

`free_spool` frees the `struct spool_file` and no page.  Until then no page is lost:
those that `alloc_pages` returned are the ones given back and the ones on `f->list`
(`SpoolLifeInv`).  So all pages are back after `free_spool` exactly if none was on the list,
which is when all records are read and the last one ended at the end of a page
(`freeSpool_conserved_iff`).
-/

import Hvf.Fs.SpoolAtomic

namespace Hvf

open PagedLog StepRun
open scoped List

/-- `free_spool`: the pages it gives back. -/
def freeSpool (_f : SpoolFile) : List ℕ := []

/-- A spool file, the pages that `alloc_pages` returned for it and those passed to
`free_pages`, in order. -/
structure SpoolLife where
  file : SpoolFile
  obtained : List ℕ
  given : List ℕ

/-- **A step in the life of a spool file**, with the pages that have changed hands: an append or
a grab of the file, or its release. -/
inductive SpoolLifeStep : SpoolLife → SpoolEvent → SpoolLife → Prop
  | append {l buf len supply a} : len ≠ 0 → len < 65536 →
      spoolAppendRec l.file buf len supply = some a →
      SpoolLifeStep l (.append buf len supply a.ret)
        ⟨a.file, l.obtained ++ l.file.taken buf len supply, l.given ++ a.freed⟩
  | grab {l buf cap g} : cap ≠ 0 → spoolGrabRec l.file buf cap = some g →
      SpoolLifeStep l (.grab buf cap g.ret g.len g.buf) ⟨g.file, l.obtained, l.given ++ g.freed⟩

/-- The bytes that the records take, the lengths and what is skipped included. -/
def storedBytes (recs : List (List UInt8)) : ℕ := (recs.map recordLayout.size).sum

/-- No record takes no byte. -/
theorem storedBytes_nil : storedBytes [] = 0 := rfl

/-- The bytes that records take add up. -/
theorem storedBytes_append (recs recs' : List (List UInt8)) :
    storedBytes (recs ++ recs') = storedBytes recs + storedBytes recs' := by
  rw [storedBytes, List.map_append, List.sum_append, storedBytes, storedBytes]

/-- One record takes its layout's size. -/
theorem storedBytes_singleton (r : List UInt8) : storedBytes [r] = recordLayout.size r := by
  rw [storedBytes, List.map_singleton, List.sum_singleton]

/-- Only the lengths count. -/
theorem storedBytes_congr {recs recs' : List (List UInt8)}
    (h : recs'.map List.length = recs.map List.length) : storedBytes recs' = storedBytes recs := by
  have hsize : ∀ l : List (List UInt8), l.map recordLayout.size =
      (l.map List.length).map fun n => 2 + n + n % 2 := fun l => by
    rw [List.map_map]
    exact List.map_congr_left fun r _ => recordLayout_size r
  rw [storedBytes, storedBytes, hsize, hsize, h]

/-! ### One call -/

variable {f : SpoolFile} {recs : List (List UInt8)}

/-- **An append loses no page**: it is on the list then, or given back. -/
theorem spoolAppendRec_pages (h : SpoolInv f recs) (buf : ℤ → UInt8) {len : ℕ} (hpos : len ≠ 0)
    {supply : List (Option SpoolPage)} {a : AppendResult}
    (ha : spoolAppendRec f buf len supply = some a) :
    a.file.list.map SpoolPage.addr ++ a.freed =
        f.list.map SpoolPage.addr ++ f.taken buf len supply ∧
      a.file.frecoff = f.frecoff := by
  obtain ⟨haddr, hcopied⟩ := fillLastPage_addr h buf len
  obtain ⟨list, copied, loff, hfill⟩ : ∃ list copied loff,
      fillLastPage f buf len = (list, copied, loff) := ⟨_, _, _, rfl⟩
  rw [SpoolFile.taken]
  rw [hfill] at haddr hcopied ⊢
  obtain ⟨hok, herror⟩ := spoolAppendRec_eq h hpos supply hfill hcopied
  obtain ⟨htakenError, htakenOk⟩ := newPages_taken buf len supply copied loff []
  rcases hnew : newPages buf len supply copied loff [] with pages | ⟨pages, loff'⟩
  · obtain rfl := Option.some.inj (ha.symm.trans (herror pages hnew))
    have htaken := htakenError pages hnew
    rw [List.map_nil, List.nil_append] at htaken
    exact ⟨by rw [haddr, htaken], rfl⟩
  · obtain rfl := Option.some.inj (ha.symm.trans (hok pages loff' hnew))
    have htaken := htakenOk pages loff' hnew
    rw [List.map_nil, List.nil_append] at htaken
    refine ⟨?_, rfl⟩
    dsimp only at haddr ⊢
    rw [List.append_nil, List.map_append, haddr, htaken]

/-- **A grab loses no page**; `frecoff` goes on by what the record takes. -/
theorem spoolGrabRec_pages (h : SpoolInv f recs) (buf : ℕ → UInt8) {cap : ℕ} (hcap : cap ≠ 0)
    {g : GrabResult} (hg : spoolGrabRec f buf cap = some g) :
    g.freed ++ g.file.list.map SpoolPage.addr = f.list.map SpoolPage.addr ∧
      (g.ret = 0 ↔ recs ≠ []) ∧
      ∃ k, 4080 * k + g.file.frecoff = f.frecoff + storedBytes (recs.take 1) := by
  cases recs with
  | nil =>
    obtain rfl := Option.some.inj (hg.symm.trans (spoolGrabRec_empty h buf hcap))
    exact ⟨rfl, by simp [enoent], 0, Nat.zero_add _⟩
  | cons r recs =>
    obtain ⟨g', hg', hret, -, -, -, -, k, hpos, hfreed, hlist⟩ := spoolGrabRec_spec h buf hcap
    obtain rfl := Option.some.inj (hg.symm.trans hg')
    refine ⟨?_, by simp [hret], k, ?_⟩
    · rw [hfreed, hlist, ← List.map_append, List.take_append_drop]
    · rw [List.take_succ_cons, List.take_zero, storedBytes_singleton, hpos]

/-! ### Lives -/

/-- **No page is lost.** Every page obtained was given back or is in the list, and `frecoff`
is where the records read so far end in a page. -/
structure SpoolLifeInv (ls : List SpoolEvent) (l : SpoolLife) : Prop where
  rep : RepInv ls l.file
  pages : l.obtained.Perm (l.given ++ l.file.list.map SpoolPage.addr)
  read : ∃ k, 4080 * k + l.file.frecoff = storedBytes ((appended ls).take (grabbed ls))

/-- What a step does to the file itself is a step of the file. -/
theorem SpoolLifeStep.spoolStep {l l' : SpoolLife} {e : SpoolEvent} (hstep : SpoolLifeStep l e l') :
    SpoolStep l.file e l'.file := by
  cases hstep with
  | append hpos hlen ha => exact .append hpos hlen ha
  | grab hcap hg => exact .grab hcap hg

/-- **One step keeps the account of the pages**: obtained ones are given back or in the list. -/
theorem spoolLifeInv_step {ls : List SpoolEvent} {l l' : SpoolLife} {e : SpoolEvent}
    (h : SpoolLifeInv ls l) (hstep : SpoolLifeStep l e l') : SpoolLifeInv (ls ++ [e]) l' := by
  have hrep := repInv_step h.rep hstep.spoolStep
  obtain ⟨recs, hfile, hlens⟩ := h.rep.file
  have hgrabbed := h.rep.grabbed_le
  obtain ⟨k, hk⟩ := h.read
  cases hstep with
  | @append buf len supply a hpos hlen ha =>
    obtain ⟨hpages, hfrecoff⟩ := spoolAppendRec_pages hfile buf hpos ha
    refine ⟨hrep, ?_, k, ?_⟩
    · calc l.obtained ++ l.file.taken buf len supply
        _ ~ l.given ++ l.file.list.map SpoolPage.addr ++ l.file.taken buf len supply :=
          h.pages.append_right _
        _ = l.given ++ (a.file.list.map SpoolPage.addr ++ a.freed) := by
          rw [List.append_assoc, hpages]
        _ ~ l.given ++ (a.freed ++ a.file.list.map SpoolPage.addr) :=
          List.perm_append_comm.append_left _
        _ = l.given ++ a.freed ++ a.file.list.map SpoolPage.addr := by rw [List.append_assoc]
    · have hgr : grabbed [.append buf len supply a.ret] = 0 := rfl
      dsimp only
      rw [appended_concat, grabbed_concat, hgr, Nat.add_zero, hfrecoff, hk,
        List.take_append_of_le_length hgrabbed]
  | @grab buf cap g hcap hg =>
    obtain ⟨hpages, hret, k', hk'⟩ := spoolGrabRec_pages hfile buf hcap hg
    refine ⟨hrep, ?_, k + k', ?_⟩
    · calc l.obtained
        _ ~ l.given ++ l.file.list.map SpoolPage.addr := h.pages
        _ = l.given ++ g.freed ++ g.file.list.map SpoolPage.addr := by
          rw [← hpages, List.append_assoc]
    · have happ : appended [.grab buf cap g.ret g.len g.buf] = [] := rfl
      have hgr : grabbed [.grab buf cap g.ret g.len g.buf] = if recs ≠ [] then 1 else 0 := by
        by_cases hne : recs = []
        · simp [grabbed, hret, hne]
        · simp [grabbed, hret, hne]
      have hnext : storedBytes (recs.take 1) =
          storedBytes (((appended ls).drop (grabbed ls)).take 1) :=
        storedBytes_congr (by rw [List.map_take, List.map_take, hlens])
      have htake : storedBytes ((appended ls).take (grabbed ls + if recs ≠ [] then 1 else 0)) =
          storedBytes ((appended ls).take (grabbed ls)) + storedBytes (recs.take 1) := by
        by_cases hne : recs = []
        · rw [if_neg (not_not.2 hne), hne, List.take_nil, storedBytes_nil]
          rfl
        · rw [if_pos hne, List.take_add, storedBytes_append, hnext]
      dsimp only
      rw [appended_concat, grabbed_concat, happ, hgr, List.append_nil, htake]
      omega

/-- The life of a spool file after `alloc_spool`. -/
def newSpoolLife : SpoolLife := ⟨allocSpool, [], []⟩

/-- The account of the pages holds over a whole life, by induction on the run. -/
theorem spoolLifeInv_run {ls : List SpoolEvent} {l : SpoolLife}
    (hrun : Run SpoolLifeStep newSpoolLife ls l) :
    SpoolLifeInv ls l :=
  hrun.history ⟨repInv_run Run.nil, List.Perm.nil, 0, rfl⟩ fun _ _ _ _ h hstep =>
    spoolLifeInv_step h hstep

/-- **Until `free_spool` no page is lost**: each one obtained is given back, once, or on
the list. -/
theorem spoolPages_conserved {ls : List SpoolEvent} {l : SpoolLife}
    (hrun : Run SpoolLifeStep newSpoolLife ls l) :
    l.obtained.Perm (l.given ++ l.file.list.map SpoolPage.addr) :=
  (spoolLifeInv_run hrun).pages

/-! ### `free_spool` -/

/-- The list is empty when all records are read and the last one ended with its page. -/
theorem SpoolLifeInv.list_eq_nil_iff {ls : List SpoolEvent} {l : SpoolLife}
    (h : SpoolLifeInv ls l) :
    l.file.list = [] ↔
      grabbed ls = (appended ls).length ∧ 4080 ∣ storedBytes (appended ls) := by
  obtain ⟨recs, hfile, hlens⟩ := h.rep.file
  obtain ⟨k, hk⟩ := h.read
  have hlength : recs.length = (appended ls).length - grabbed ls := by
    have := congrArg List.length hlens
    rwa [List.length_map, List.length_map, List.length_drop] at this
  have hgrabbed := h.rep.grabbed_le
  have hlt := hfile.frecoff_lt
  have hend := Log.end_eq hfile.log
  constructor
  · intro hnil
    have hempty := hfile.frecoff_empty hnil
    have hrecs : recs = [] := by
      cases recs with
      | nil => rfl
      | cons r recs =>
        have hsize := recordLayout_size r
        rw [SpoolFile.fileEnd_of_nil hnil, List.map_cons, List.sum_cons] at hend
        omega
    have hall : grabbed ls = (appended ls).length := by
      rw [hrecs, List.length_nil] at hlength
      omega
    rw [hall, List.take_length] at hk
    exact ⟨hall, k, by omega⟩
  · rintro ⟨hall, hdvd⟩
    have hrecs : recs = [] := List.length_eq_zero_iff.1 (by omega)
    rw [hall, List.take_length] at hk
    rw [← hk] at hdvd
    rw [hrecs, List.map_nil, List.sum_nil] at hend
    by_contra hne
    have hoffsets := hfile.offsets hne
    rw [SpoolFile.fileEnd_of_ne_nil hne] at hend
    omega

/-- **When `free_spool` leaves no page behind.**  In every life, failed calls included,
the pages given back are those obtained exactly if all records that were appended are
read, and they fill whole pages. -/
theorem freeSpool_conserved_iff {ls : List SpoolEvent} {l : SpoolLife}
    (hrun : Run SpoolLifeStep newSpoolLife ls l) :
    l.obtained.Perm (l.given ++ freeSpool l.file) ↔
      grabbed ls = (appended ls).length ∧ 4080 ∣ storedBytes (appended ls) := by
  have h := spoolLifeInv_run hrun
  rw [← h.list_eq_nil_iff, freeSpool, List.append_nil]
  constructor
  · intro hperm
    have hgiven := hperm.length_eq
    have hall := h.pages.length_eq
    rw [List.length_append, List.length_map] at hall
    exact List.length_eq_zero_iff.1 (by omega)
  · intro hnil
    have hpages := h.pages
    rwa [hnil, List.map_nil, List.append_nil] at hpages

/-- A record of 4078 bytes, which with its length fills its page, is read, and the page goes
back. -/
theorem freeSpool_conserved_full : ∃ ls l, Run SpoolLifeStep newSpoolLife ls l ∧
    l.obtained = [4096] ∧ l.obtained.Perm (l.given ++ freeSpool l.file) := by
  let buf : ℤ → UInt8 := fun _ => 1
  let supply : List (Option SpoolPage) := [some ⟨4096, fun _ => 0⟩]
  have hcall : ((spoolAppendRec allocSpool buf 4078 supply).bind fun a =>
      (spoolGrabRec a.file (fun _ => 0) 1).map fun g => (a.ret, g.ret)) = some (0, 0) := by
    decide +kernel
  obtain ⟨a, ha, hcall⟩ := Option.bind_eq_some_iff.1 hcall
  obtain ⟨g, hg, hcall⟩ := Option.map_eq_some_iff.1 hcall
  obtain ⟨hret, hret'⟩ := Prod.mk.inj hcall
  have hrun : Run SpoolLifeStep newSpoolLife
      [.append buf 4078 supply a.ret, .grab (fun _ => 0) 1 g.ret g.len g.buf]
      ⟨g.file, [4096], a.freed ++ g.freed⟩ :=
    (Run.nil.snoc (SpoolLifeStep.append (l := newSpoolLife) (by decide) (by decide) ha)).snoc
      (SpoolLifeStep.grab (by decide) hg)
  refine ⟨_, _, hrun, rfl, (freeSpool_conserved_iff hrun).2 ?_⟩
  rw [show appended _ = [recordOf buf 4078] by simp [appended, hret], storedBytes_singleton,
    recordLayout_size, length_recordOf]
  exact ⟨by simp [grabbed, hret'], 1, rfl⟩

/-- **The pages of a file with records are lost**, here one of a record of one byte:
`free_spool` gives back the structure only. -/
theorem not_freeSpool_conserved : ¬ ∀ ls l, Run SpoolLifeStep newSpoolLife ls l →
    l.obtained.Perm (l.given ++ freeSpool l.file) := by
  intro h
  let buf : ℤ → UInt8 := fun _ => 1
  let supply : List (Option SpoolPage) := [some ⟨4096, fun _ => 0⟩]
  have hcall : (spoolAppendRec allocSpool buf 1 supply).map AppendResult.freed = some [] := by
    decide +kernel
  obtain ⟨a, ha, hfreed⟩ := Option.map_eq_some_iff.1 hcall
  have hperm := h _ _
    (Run.nil.snoc (SpoolLifeStep.append (l := newSpoolLife) (by decide) (by decide) ha))
  have hlength : 1 = a.freed.length :=
    hperm.length_eq.trans (congrArg List.length (List.append_nil _))
  rw [hfreed] at hlength
  cases hlength

end Hvf
