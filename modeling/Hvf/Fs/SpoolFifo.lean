/-
# A spool file as a queue

Runs of `spool_append_rec` and `spool_grab_rec` on a file fresh from
`alloc_spool`.  `appended` are the records of the calls that returned 0, and a
grab should give the one that is next in line (`FifoGrabs`).  It does in every
run that stores no record with its data cut (`spoolFile_fifo`); a record that is
cut comes back with bytes that were before the caller's buffer
(`spoolFile_cut`).
-/

import Hvf.Fs.SpoolAppend
import Hvf.Lib.StepRun

namespace Hvf

open StepRun

/-- **A call with its arguments and its results**: a record is appended, with the pages that
`alloc_pages` has for it, or one is grabbed. -/
inductive SpoolEvent
  | append (buf : ℤ → UInt8) (len : ℕ) (supply : List (Option SpoolPage)) (ret : Int)
  | grab (buf : ℕ → UInt8) (cap : ℕ) (ret : Int) (len : ℕ) (buf' : ℕ → UInt8)

/-- **A step of a spool file's run**, with records of 1 to 65535 bytes, as their length is
stored in two, and buffers of at least one byte. -/
inductive SpoolStep : SpoolFile → SpoolEvent → SpoolFile → Prop
  | append {f buf len supply a} : len ≠ 0 → len < 65536 →
      spoolAppendRec f buf len supply = some a → SpoolStep f (.append buf len supply a.ret) a.file
  | grab {f buf cap g} : cap ≠ 0 → spoolGrabRec f buf cap = some g →
      SpoolStep f (.grab buf cap g.ret g.len g.buf) g.file

/-- The records appended, in order. -/
def appended (ls : List SpoolEvent) : List (List UInt8) :=
  ls.filterMap fun
    | .append buf len _ ret => if ret = 0 then some (recordOf buf len) else none
    | .grab .. => none

/-- The number of grabs that succeeded. -/
def grabbed (ls : List SpoolEvent) : ℕ :=
  ls.countP fun
    | .append .. => false
    | .grab _ _ ret _ _ => ret = 0

/-- What a grab should do when `next` is next in line: give its first bytes, as
many as fit, and nothing else, or return `-ENOENT` if there is none. -/
def GrabsNext (next : Option (List UInt8)) (buf : ℕ → UInt8) (cap : ℕ) (ret : Int) (len : ℕ)
    (buf' : ℕ → UInt8) : Prop :=
  match next with
  | none => ret = -enoent
  | some r => ret = 0 ∧ len = min cap r.length ∧
      (∀ i (hi : i < r.length), i < cap → buf' i = r[i]) ∧
      ∀ i, min cap r.length ≤ i → buf' i = buf i

/-- Every grab does what it should: after `k` successful ones it gives record
`k`, and `-ENOENT` if that many were not appended. -/
def FifoGrabs (ls : List SpoolEvent) : Prop :=
  ∀ ls₁ ls₂ buf cap ret len buf', ls = ls₁ ++ .grab buf cap ret len buf' :: ls₂ →
    GrabsNext (appended ls₁)[grabbed ls₁]? buf cap ret len buf'

/-- The data of an appended record is not cut, or a page it needs is not to be had. -/
def AppendSafe (f : SpoolFile) : SpoolEvent → Prop
  | .append _ len supply _ =>
      Unsplit f len ∨ ∃ i < pagesNeeded f len, ∀ spage, supply[i]? ≠ some (some spage)
  | .grab .. => True

/-- The records appended by a run, and by the run with one event more. -/
theorem appended_concat (ls : List SpoolEvent) (e : SpoolEvent) :
    appended (ls ++ [e]) = appended ls ++ appended [e] := by
  rw [appended, List.filterMap_append, appended, appended]

/-- The number of records grabbed by a run, and by the run with one event more. -/
theorem grabbed_concat (ls : List SpoolEvent) (e : SpoolEvent) :
    grabbed (ls ++ [e]) = grabbed ls + grabbed [e] := by
  rw [grabbed, List.countP_append, grabbed, grabbed]

/-- **The queue invariant.** The records in the file are those appended and not yet grabbed,
in this order, and each grab so far has had the next one. -/
structure FifoInv (ls : List SpoolEvent) (f : SpoolFile) : Prop where
  file : SpoolInv f ((appended ls).drop (grabbed ls))
  grabbed_le : grabbed ls ≤ (appended ls).length
  grabs : FifoGrabs ls

/-- Grabs in order stay so with one event more, if that grab takes the next record. -/
theorem fifoGrabs_concat {ls : List SpoolEvent} {e : SpoolEvent} (h : FifoGrabs ls)
    (hlast : ∀ buf cap ret len buf', e = .grab buf cap ret len buf' →
      GrabsNext (appended ls)[grabbed ls]? buf cap ret len buf') : FifoGrabs (ls ++ [e]) := by
  intro ls₁ ls₂ buf cap ret len buf' heq
  rcases List.eq_nil_or_concat' ls₂ with rfl | ⟨ls₂, e', rfl⟩
  · obtain ⟨rfl, he⟩ := List.append_inj' heq rfl
    exact hlast _ _ _ _ _ (List.singleton_inj.1 he)
  · rw [← List.cons_append, ← List.append_assoc] at heq
    exact h _ _ _ _ _ _ _ (List.append_inj' heq rfl).1

/-- An append that is safe adds its record, or leaves the file as it was. -/
theorem fifoInv_append {ls : List SpoolEvent} {f : SpoolFile} (h : FifoInv ls f)
    {buf : ℤ → UInt8} {len : ℕ} {supply : List (Option SpoolPage)} {a : AppendResult}
    (hpos : len ≠ 0) (hlen : len < 65536) (ha : spoolAppendRec f buf len supply = some a)
    (hsafe : AppendSafe f (.append buf len supply a.ret)) :
    FifoInv (ls ++ [.append buf len supply a.ret]) a.file := by
  have hgrabs : FifoGrabs (ls ++ [.append buf len supply a.ret]) :=
    fifoGrabs_concat h.grabs fun _ _ _ _ _ he => by cases he
  have hresult : Appended ((appended ls).drop (grabbed ls)) (recordOf buf len) a := by
    rcases hsafe with hunsplit | hmissing
    · obtain ⟨a', ha', happended⟩ := spoolAppendRec_spec h.file buf hpos hlen supply hunsplit
      rwa [Option.some.inj (ha.symm.trans ha')]
    · obtain ⟨a', ha', hfailed⟩ := spoolAppendRec_nomem h.file buf hpos hlen hmissing
      rw [Option.some.inj (ha.symm.trans ha')]
      exact Or.inr hfailed
  rcases hresult with ⟨hret, hfile⟩ | ⟨hret, hfile⟩
  · have happ : appended [.append buf len supply a.ret] = [recordOf buf len] := by
      simp [appended, hret]
    have hgr : grabbed [.append buf len supply a.ret] = 0 := rfl
    refine ⟨?_, ?_, hgrabs⟩
    · rwa [appended_concat, grabbed_concat, happ, hgr, Nat.add_zero,
        List.drop_append_of_le_length h.grabbed_le]
    · rw [appended_concat, grabbed_concat, happ, hgr, List.length_append]
      exact h.grabbed_le.trans (Nat.le_add_right _ _)
  · have happ : appended [.append buf len supply a.ret] = [] := by
      simp [appended, hret, enomem]
    have hgr : grabbed [.append buf len supply a.ret] = 0 := rfl
    refine ⟨?_, ?_, hgrabs⟩
    · rwa [appended_concat, grabbed_concat, happ, hgr, List.append_nil]
    · rw [appended_concat, grabbed_concat, happ, hgr, List.append_nil]
      exact h.grabbed_le

/-- A grab takes the record that is next in line. -/
theorem fifoInv_grab {ls : List SpoolEvent} {f : SpoolFile} (h : FifoInv ls f) {buf : ℕ → UInt8}
    {cap : ℕ} {g : GrabResult} (hcap : cap ≠ 0) (hg : spoolGrabRec f buf cap = some g) :
    FifoInv (ls ++ [.grab buf cap g.ret g.len g.buf]) g.file := by
  have happ : appended [.grab buf cap g.ret g.len g.buf] = [] := rfl
  by_cases hmore : grabbed ls < (appended ls).length
  · have hfile := h.file
    rw [List.drop_eq_getElem_cons hmore] at hfile
    obtain ⟨g', hg', hret, hlen, hbuf, hkept, hfile', -⟩ := spoolGrabRec_spec hfile buf hcap
    obtain rfl := Option.some.inj (hg.symm.trans hg')
    have hgr : grabbed [.grab buf cap g.ret g.len g.buf] = 1 := by simp [grabbed, hret]
    refine ⟨?_, ?_, fifoGrabs_concat h.grabs fun _ _ _ _ _ he => ?_⟩
    · rwa [appended_concat, grabbed_concat, happ, hgr, List.append_nil]
    · rw [appended_concat, grabbed_concat, happ, hgr, List.append_nil]
      exact hmore
    · cases he
      rw [List.getElem?_eq_getElem hmore]
      exact ⟨hret, hlen, hbuf, hkept⟩
  · have hfile := h.file
    rw [List.drop_eq_nil_of_le (Nat.le_of_not_lt hmore)] at hfile
    have hg' := spoolGrabRec_empty hfile buf hcap
    obtain rfl := Option.some.inj (hg.symm.trans hg')
    have hgr : grabbed [.grab buf cap (-enoent) cap buf] = 0 := by simp [grabbed, enoent]
    refine ⟨?_, ?_, fifoGrabs_concat h.grabs fun _ _ _ _ _ he => ?_⟩
    · rw [appended_concat, grabbed_concat, happ, hgr, List.append_nil]
      exact h.file
    · rw [appended_concat, grabbed_concat, happ, hgr, List.append_nil]
      exact h.grabbed_le
    · cases he
      rw [List.getElem?_eq_none (Nat.le_of_not_lt hmore)]
      rfl

/-- **The queue invariant holds over whole runs** whose appends keep the condition on the file's
length. -/
theorem fifoInv_run {ls : List SpoolEvent} {f : SpoolFile}
    (hrun : Run (guarded AppendSafe SpoolStep) allocSpool ls f) : FifoInv ls f := by
  refine hrun.history ⟨spoolInv_alloc, Nat.le_refl 0, ?_⟩ fun ls f e f' h hstep => ?_
  · intro ls₁ ls₂ buf cap ret len buf' heq
    simp at heq
  · obtain ⟨hsafe, hstep⟩ := hstep
    cases hstep with
    | append hpos hlen ha => exact fifoInv_append h hpos hlen ha hsafe
    | grab hcap hg => exact fifoInv_grab h hcap hg

/-- **A spool file is a lossless queue as long as no record is cut.**  In every
run from `alloc_spool` in which each append stores its data in one page or fails
for want of a page, each grab gives the record that is next in line, truncated to
its capacity, or `-ENOENT` if all are grabbed; and no call hangs. -/
theorem spoolFile_fifo {ls : List SpoolEvent} {f : SpoolFile}
    (hrun : Run (guarded AppendSafe SpoolStep) allocSpool ls f) :
    FifoGrabs ls ∧ grabbed ls ≤ (appended ls).length ∧
      ∀ (buf : ℕ → UInt8) (cap : ℕ), cap ≠ 0 → ∃ g, spoolGrabRec f buf cap = some g := by
  have h := fifoInv_run hrun
  refine ⟨h.grabs, h.grabbed_le, fun buf cap hcap => ?_⟩
  have hfile := h.file
  cases hrest : (appended ls).drop (grabbed ls) with
  | nil =>
    rw [hrest] at hfile
    exact ⟨_, spoolGrabRec_empty hfile buf hcap⟩
  | cons r recs =>
    rw [hrest] at hfile
    obtain ⟨g, hg, _⟩ := spoolGrabRec_spec hfile buf hcap
    exact ⟨g, hg⟩

/-- Three records, the last one appended behind the first grab.  The first is grabbed
into a buffer of one byte, and the fourth grab finds none. -/
theorem spoolFile_fifo_truncated : ∃ ls f, Run (guarded AppendSafe SpoolStep) allocSpool ls f ∧
    appended ls = [[5, 6], [7], [8, 9, 10]] ∧ grabbed ls = 3 ∧ FifoGrabs ls := by
  let buf : List UInt8 → ℤ → UInt8 := fun r i => r.getD i.toNat 0
  let out : ℕ → UInt8 := fun _ => 0
  let supply : List (Option SpoolPage) := [some ⟨4096, fun _ => 0⟩]
  have hcalls : ((spoolAppendRec allocSpool (buf [5, 6]) 2 supply).bind fun a =>
      (spoolAppendRec a.file (buf [7]) 1 []).bind fun b =>
      (spoolGrabRec b.file out 1).bind fun g =>
      (spoolAppendRec g.file (buf [8, 9, 10]) 3 []).bind fun c =>
      (spoolGrabRec c.file out 8).bind fun h =>
      (spoolGrabRec h.file out 8).bind fun i =>
      (spoolGrabRec i.file out 8).map fun j =>
        ([a.ret, b.ret, g.ret, c.ret, h.ret, i.ret, j.ret],
          [lastCopied a.file 1, lastCopied g.file 3])) =
      some ([0, 0, 0, 0, 0, 0, -enoent], [3, 5]) := by
    decide +kernel
  obtain ⟨a, ha, hcalls⟩ := Option.bind_eq_some_iff.1 hcalls
  obtain ⟨b, hb, hcalls⟩ := Option.bind_eq_some_iff.1 hcalls
  obtain ⟨g, hg, hcalls⟩ := Option.bind_eq_some_iff.1 hcalls
  obtain ⟨c, hc, hcalls⟩ := Option.bind_eq_some_iff.1 hcalls
  obtain ⟨h, hh, hcalls⟩ := Option.bind_eq_some_iff.1 hcalls
  obtain ⟨i, hi, hcalls⟩ := Option.bind_eq_some_iff.1 hcalls
  obtain ⟨j, hj, hcalls⟩ := Option.map_eq_some_iff.1 hcalls
  simp only [Prod.mk.injEq, List.cons.injEq, and_true] at hcalls
  obtain ⟨⟨hreta, hretb, hretg, hretc, hreth, hreti, hretj⟩, hlast₁, hlast₃⟩ := hcalls
  -- each record is in the rest of the last page, the first one in a new page
  have hsafe : AppendSafe allocSpool (.append (buf [5, 6]) 2 supply a.ret) :=
    Or.inl (Or.inr (by decide))
  have hsafe₁ : AppendSafe a.file (.append (buf [7]) 1 [] b.ret) := Or.inl (Or.inl hlast₁)
  have hsafe₃ : AppendSafe g.file (.append (buf [8, 9, 10]) 3 [] c.ret) := Or.inl (Or.inl hlast₃)
  have hgrab : ∀ f buf cap ret len buf', AppendSafe f (.grab buf cap ret len buf') :=
    fun _ _ _ _ _ _ => trivial
  have hstart : Run (guarded AppendSafe SpoolStep) allocSpool [] allocSpool := Run.nil
  have hrun := ((((((hstart.snoc ⟨hsafe, SpoolStep.append (by decide) (by decide) ha⟩).snoc
    ⟨hsafe₁, SpoolStep.append (by decide) (by decide) hb⟩).snoc
    ⟨hgrab _ _ _ _ _ _, SpoolStep.grab (by decide) hg⟩).snoc
    ⟨hsafe₃, SpoolStep.append (by decide) (by decide) hc⟩).snoc
    ⟨hgrab _ _ _ _ _ _, SpoolStep.grab (by decide) hh⟩).snoc
    ⟨hgrab _ _ _ _ _ _, SpoolStep.grab (by decide) hi⟩).snoc
    ⟨hgrab _ _ _ _ _ _, SpoolStep.grab (by decide) hj⟩
  refine ⟨_, _, hrun, ?_, ?_, (spoolFile_fifo hrun).1⟩
  · simp [appended, hreta, hretb, hretc, recordOf, buf, List.range_succ]
  · simp [grabbed, hretg, hreth, hreti, hretj, enoent]

/-- A record of 4079 bytes of 1 behind bytes of 7: its last byte comes in a second
page and is taken from before the buffer. -/
theorem spoolFile_cut : ∃ ls f, Run SpoolStep allocSpool ls f ∧ ¬ FifoGrabs ls := by
  let buf : ℤ → UInt8 := fun i => if i < 0 then 7 else 1
  let supply : List (Option SpoolPage) := [some ⟨4096, fun _ => 0⟩, some ⟨8192, fun _ => 0⟩]
  have hcut : ((spoolAppendRec allocSpool buf 4079 supply).bind fun a =>
      (spoolGrabRec a.file (fun _ => 0) 65535).map fun g => (a.ret, g.buf 4078)) =
        some (0, 7) := by
    decide +kernel
  obtain ⟨a, ha, hcut⟩ := Option.bind_eq_some_iff.1 hcut
  obtain ⟨g, hg, hcut⟩ := Option.map_eq_some_iff.1 hcut
  obtain ⟨hret, hbyte⟩ := Prod.mk.inj hcut
  have hrun := (Run.nil.snoc (SpoolStep.append (by decide) (by decide) ha)).snoc
    (SpoolStep.grab (by decide) hg)
  refine ⟨_, _, hrun, fun hfifo => ?_⟩
  have hgrab := hfifo [.append buf 4079 supply a.ret] [] _ _ _ _ _ rfl
  have happ : (appended [.append buf 4079 supply a.ret])[grabbed [.append buf 4079 supply a.ret]]?
      = some (recordOf buf 4079) := by
    simp [appended, grabbed, hret]
  rw [happ] at hgrab
  have hbyte' := hgrab.2.2.1 4078 (by rw [length_recordOf]; decide) (by decide)
  rw [hbyte] at hbyte'
  simp [recordOf, buf] at hbyte'

end Hvf
