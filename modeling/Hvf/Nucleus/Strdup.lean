/-
# `strdup`

`strdup` of `cp/nucleus/util.c` and `find_user_by_id` of `cp/nucleus/direct.c`.
`strdup` asks `malloc` for as many bytes as the string has characters and copies
these, without the NUL, so the copy ends where the byte behind it is zero.  That
byte is the rest of the slot, with what its last owner left there, or the next
slot when the string fills its own.

`strdup_string_iff` says when the copy is read as the string, whatever was
allocated, stored and freed before and whatever is after.
-/

import Hvf.CString
import Hvf.Errno
import Hvf.Mm.MallocSmall

namespace Hvf

open StepRun

/-- `memcpy` of the characters. -/
def storeChars8 (mem : Bitmap.Mem) (d : ℕ) (s : List UInt8) : Bitmap.Mem :=
  fun a => if d ≤ a ∧ a < d + s.length then (s.getD (a - d) 0).toBitVec else mem a

/-- `strdup`; `s` is the string before its NUL. -/
def strdup (s : List UInt8) (type : Zone) (newpage : Option ℕ) (st : SlabStore (Fin 7)) :
    Option (Option ℕ × SlabStore (Fin 7)) :=
  (malloc s.length type newpage st).map fun r =>
    match r.1 with
    | none => (none, r.2)
    | some d => (some d, { r.2 with mem := storeChars8 r.2.mem d s })

/-- `strcasecmp` with a string in memory. -/
def strcasecmpAt (mem : Bitmap.Mem) (s1 : ℕ) : List UInt8 → Int
  | [] => (tolower (.ofBitVec (mem s1))).toNat - (tolower 0).toNat
  | c :: s2 =>
    let c1 := tolower (.ofBitVec (mem s1))
    let c2 := tolower c
    if c1 = c2 ∧ c1 ≠ 0 then strcasecmpAt mem (s1 + 1) s2 else c1.toNat - c2.toNat

/-- `find_user_by_id`; a user is the address of its `userid`. -/
def findUserByIdAt (mem : Bitmap.Mem) (directory : List ℕ) (userid : Option (List UInt8)) :
    Except Int ℕ :=
  match userid with
  | none => .error (-enoent)
  | some userid =>
    match directory.find? fun u => strcasecmpAt mem u userid = 0 with
    | some u => .ok u
    | none => .error (-enoent)

/-- What memory holds at `p`, read up to the first NUL, is `s`. -/
def StringAt (mem : Bitmap.Mem) (p : ℕ) (s : List UInt8) : Prop :=
  (∀ i < s.length, mem (p + i) = (s.getD i 0).toBitVec) ∧ mem (p + s.length) = 0

/-! ### Strings -/

/-- The string at a place compares equal to itself. -/
theorem StringAt.strcasecmpAt {mem : Bitmap.Mem} {p : ℕ} {s : List UInt8}
    (h : StringAt mem p s) (hnul : 0 ∉ s) : strcasecmpAt mem p s = 0 := by
  induction s generalizing p with
  | nil =>
    have hzero : mem p = 0 := h.2
    rw [Hvf.strcasecmpAt, hzero]
    rfl
  | cons c s ih =>
    have hc : mem p = c.toBitVec := h.1 0 (by simp)
    have hne : tolower c ≠ 0 := tolower_ne_zero fun h => hnul (h ▸ List.mem_cons_self ..)
    have hrest : StringAt mem (p + 1) s := by
      refine ⟨fun i hi => ?_, ?_⟩
      · have hi' := h.1 (i + 1) (by simpa using hi)
        rwa [List.getD_cons_succ, Nat.add_comm i, ← Nat.add_assoc] at hi'
      · have hlast := h.2
        rwa [List.length_cons, Nat.add_comm s.length, ← Nat.add_assoc] at hlast
    rw [Hvf.strcasecmpAt, hc, UInt8.ofBitVec_toBitVec, if_pos ⟨rfl, hne⟩]
    exact ih hrest fun hmem => hnul (List.mem_cons_of_mem _ hmem)

/-- **A user is found** where a copy of the name is read as the name. -/
theorem StringAt.findUserByIdAt {mem : Bitmap.Mem} {p : ℕ} {s : List UInt8}
    (h : StringAt mem p s) (hnul : 0 ∉ s) {directory : List ℕ} (hp : p ∈ directory) :
    ∃ u ∈ directory, findUserByIdAt mem directory (some s) = .ok u := by
  rw [Hvf.findUserByIdAt]
  cases hfind : directory.find? fun u => Hvf.strcasecmpAt mem u s = 0 with
  | some u => exact ⟨u, List.mem_of_find?_eq_some hfind, rfl⟩
  | none =>
    have hnot := List.find?_eq_none.1 hfind p hp
    exact absurd (decide_eq_true (h.strcasecmpAt hnul)) hnot

/-! ### A copy -/

/-- **The characters of `w` are at `ptr`**, which is a place of a small cache, so that
another object's store can hit no more than what is behind its end. -/
structure Copied (c : Fin 7) (ptr : ℕ) (w : List UInt8) (t : MallocState) : Prop where
  inv : SmallInv t
  place : IsPlace t.store c ptr
  size : w.length ≤ (genericLayout c).objsize
  chars : ∀ i < w.length, t.store.mem (ptr + i) = (w.getD i 0).toBitVec

variable {t u : MallocState} {w : List UInt8} {ptr : ℕ} {c : Fin 7}

/-- **What `strdup` leaves:** the characters, and behind them what was there, or a
zero on a page that `alloc_pages` has just handed out. -/
theorem strdup_copied {type : Zone} {newpage : Option ℕ} {s' : SlabStore (Fin 7)}
    (hinv : SmallInv t) (hpos : 0 < w.length) (hmax : w.length ≤ 512)
    (hfresh : freshPage t.store newpage = true)
    (hdup : strdup w type newpage t.store = some (some ptr, s')) :
    ∃ c, Copied c ptr w ⟨s', (ptr, w.length) :: t.live⟩ ∧ (s'.mem (ptr + w.length) = 0 ↔
      newpage = some (addrToPage ptr) ∨ t.store.mem (ptr + w.length) = 0) := by
  obtain ⟨⟨r, s₁⟩, hmalloc, hr⟩ := Option.map_eq_some_iff.1 hdup
  cases r with
  | none => cases hr
  | some d =>
    obtain ⟨hd, rfl⟩ := Prod.mk.inj hr
    obtain rfl := Option.some.inj hd
    have hstep : mallocStep t (.malloc w.length type newpage)
        = some ⟨s₁, (d, w.length) :: t.live⟩ := by
      rw [mallocStep, if_pos ⟨by omega, by omega, hfresh⟩, hmalloc]
      rfl
    have hinv₁ := mallocStep_small hinv hstep
    obtain ⟨c, heq, hsize, hc⟩ := malloc_eq (show (1 : ℤ) ≤ w.length by omega)
      (by omega) type newpage t.store
    rw [heq] at hmalloc
    have halloc := allocSlabObj_allocated hinv.layout hfresh hmalloc
    have hc6 : c ≠ 6 := fun h => absurd (hc.1 h) (by omega)
    obtain ⟨hpage, hobj⟩ := halloc.object d rfl
    have hplace : IsPlace s₁ c d := ⟨hc6, hpage, hobj⟩
    have hsize : w.length ≤ (genericLayout c).objsize := by omega
    refine ⟨c, ⟨?_, hplace, hsize, fun i hi => ?_⟩, ?_⟩
    · -- the characters stay inside the object
      refine hinv₁.mem_congr fun a ha => ?_
      rw [storeChars8]
      split_ifs with hin
      · obtain ⟨slab, -, hslab, -⟩ := hinv₁.place (List.mem_cons_self ..)
        have halive : inObject s₁ d a := by
          obtain ⟨h, hh, hgeneric⟩ := halloc.layout c _ hpage
          refine ⟨hin.1, ?_⟩
          rw [allocsize, hh, Option.map_some, Option.getD_some, hgeneric.1]
          omega
        have hoff := hinv₁.off_book (List.mem_cons_self ..) halive
        dsimp only at ha hoff
        rw [hoff] at ha
        cases ha
      · rfl
    · have hin : d ≤ d + i ∧ d + i < d + w.length := by omega
      dsimp only
      rw [storeChars8, if_pos hin, Nat.add_sub_cancel_left]
    · have hout : ¬ (d ≤ d + w.length ∧ d + w.length < d + w.length) := by omega
      dsimp only
      rw [storeChars8, if_neg hout]
      cases hold : t.store.hdr (addrToPage d) with
      | none =>
        obtain ⟨hsame, hoff⟩ := hplace.byte halloc.layout hsize
        refine iff_of_true (halloc.cleared _ ?_ ?_ hoff) (Or.inl ?_)
        · rwa [hsame]
        · rwa [hsame]
        · rcases halloc.pages with h | ⟨n, hn, h⟩
          · rw [h] at hpage
            exact absurd hold (hinv.layout.hdr_ne_none hpage)
          · rw [h, List.mem_append, List.mem_singleton] at hpage
            rcases hpage with hpage | hpage
            · exact absurd hold (hinv.layout.hdr_ne_none hpage)
            · rw [hn, hpage]
      | some slab =>
        have hnew : newpage ≠ some (addrToPage d) := by
          rintro rfl
          simp [freshPage, hold] at hfresh
        have hpage' : addrToPage d ∈ t.store.pages c := by
          rcases halloc.pages with h | ⟨n, hn, h⟩
          · rwa [h] at hpage
          · rw [h, List.mem_append, List.mem_singleton] at hpage
            refine hpage.resolve_right fun heq => hnew ?_
            rw [hn, heq]
        obtain ⟨hsame, hoff⟩ := IsPlace.byte ⟨hc6, hpage', hobj⟩ hinv.layout hsize
        rw [halloc.frame _ (by rw [hsame, hold]; rfl) hoff]
        exact (or_iff_right hnew).symm

/-- The string is kept: its object is not freed, and stores go to other objects. -/
def KeepsString (ptr : ℕ) (t : MallocState) (e : MallocEvent) (u : MallocState) : Prop :=
  mallocStep t e = some u ∧ e ≠ .free ptr ∧
    ∀ a v, e = .write a v → ∃ x ∈ t.live, x.1 ≠ ptr ∧ inObject t.store x.1 a

/-- Nothing but a zero is stored at `a`. -/
def StoresNul (a : ℕ) (e : MallocEvent) : Prop := ∀ v, e = .write a v → v = 0

/-- **What is done to other objects** leaves the characters, and the zero behind
them unless another byte is stored there. -/
theorem Copied.step {e : MallocEvent} (h : Copied c ptr w t) (hstep : KeepsString ptr t e u) :
    Copied c ptr w u ∧ (t.store.mem (ptr + w.length) = 0 →
      (u.store.mem (ptr + w.length) = 0 ↔ StoresNul (ptr + w.length) e)) := by
  obtain ⟨hstep, -, hother⟩ := hstep
  have hinv := mallocStep_small h.inv hstep
  have hnot : ∀ i < w.length, ∀ v, e ≠ .write (ptr + i) v := by
    intro i hi v hw
    obtain ⟨x, hx, hne, ha⟩ := hother _ v hw
    have hsize := h.size
    exact h.inv.disjoint h.place hx hne ha ⟨by omega, by omega⟩
  have hplace : IsPlace u.store c ptr := by
    by_cases hw : ∃ v, e = .write ptr v
    · obtain ⟨v, rfl⟩ := hw
      simp only [mallocStep] at hstep
      split_ifs at hstep
      obtain rfl := Option.some.inj hstep
      exact h.place
    · exact (mallocStep_frame (k := 0) h.inv hstep h.place (Nat.zero_le _)
        fun v hv => hw ⟨v, hv⟩).1
  refine ⟨⟨hinv, hplace, h.size, fun i hi => ?_⟩, fun hzero => ?_⟩
  · rw [(mallocStep_frame h.inv hstep h.place (hi.le.trans h.size) (hnot i hi)).2]
    exact h.chars i hi
  · by_cases hw : ∃ v, e = .write (ptr + w.length) v
    · obtain ⟨v, rfl⟩ := hw
      simp only [mallocStep] at hstep
      split_ifs at hstep
      obtain rfl := Option.some.inj hstep
      dsimp only
      rw [Function.update_self]
      constructor
      · rintro rfl v hv
        cases hv
        rfl
      · intro hnul
        exact hnul v rfl
    · rw [(mallocStep_frame h.inv hstep h.place h.size fun v hv => hw ⟨v, hv⟩).2]
      exact iff_of_true hzero fun v hv => absurd ⟨v, hv⟩ hw

/-- The copy is read as the string, and the user with this name is found. -/
def Duplicated (ptr : ℕ) (w : List UInt8) (t : MallocState) : Prop :=
  StringAt t.store.mem ptr w ∧ ∀ directory, ptr ∈ directory →
    ∃ u ∈ directory, findUserByIdAt t.store.mem directory (some w) = .ok u

/-- **A copied string is one exactly when a NUL happens to stand behind it.** -/
theorem Copied.duplicated_iff (h : Copied c ptr w t) (hnul : 0 ∉ w) :
    Duplicated ptr w t ↔ t.store.mem (ptr + w.length) = 0 := by
  refine ⟨fun hdup => hdup.1.2, fun hzero => ?_⟩
  have hstring : StringAt t.store.mem ptr w := ⟨h.chars, hzero⟩
  exact ⟨hstring, fun directory hp => hstring.findUserByIdAt hnul hp⟩

/-- **Exactly when a duplicated string is its source.**  After any history of
`malloc`, `free` and stores into live objects `strdup` copies a string, and other
objects are used for a while.  The copy is the string at every moment, and users
are found by it, exactly when a zero is behind the characters from the beginning,
or the page is new, and nothing else is ever stored there. -/
theorem strdup_string_iff {page : Fin 7 → Option ℕ} {mem : Bitmap.Mem} {s s' : SlabStore (Fin 7)}
    (hdistinct : ∀ c c' n, page c = some n → page c' = some n → c = c')
    (hinit : initSlab page (SlabState.init mem).store = some s) {before later : List MallocEvent}
    (hbefore : Run (fun t e u => mallocStep t e = some u) ⟨s, []⟩ before t)
    (hpos : 0 < w.length) (hmax : w.length ≤ 512) (hnul : 0 ∉ w) {type : Zone}
    {newpage : Option ℕ} (hfresh : freshPage t.store newpage = true)
    (hdup : strdup w type newpage t.store = some (some ptr, s'))
    (hlater : Run (KeepsString ptr) ⟨s', (ptr, w.length) :: t.live⟩ later u) :
    (∀ ls' u', ls' <+: later → Run (KeepsString ptr) ⟨s', (ptr, w.length) :: t.live⟩ ls' u' →
      Duplicated ptr w u') ↔
    (newpage = some (addrToPage ptr) ∨ t.store.mem (ptr + w.length) = 0) ∧
      Run (guarded (fun _ e => StoresNul (ptr + w.length) e) (KeepsString ptr))
        ⟨s', (ptr, w.length) :: t.live⟩ later u := by
  obtain ⟨c, hcopied, hbehind⟩ :=
    strdup_copied (mallocRun_small hdistinct hinit hbefore) hpos hmax hfresh hdup
  rw [← hbehind]
  have hkept : ∀ {ls v}, Run (KeepsString ptr) ⟨s', (ptr, w.length) :: t.live⟩ ls v →
      Copied c ptr w v :=
    fun hrun => hrun.invariant hcopied fun _ _ _ h hstep => (h.step hstep).1
  have halways : Duplicated ptr w ⟨s', (ptr, w.length) :: t.live⟩ →
      ((∀ ls' u', ls' <+: later → Run (KeepsString ptr) ⟨s', (ptr, w.length) :: t.live⟩ ls' u' →
        Duplicated ptr w u') ↔
      Run (guarded (fun _ e => StoresNul (ptr + w.length) e) (KeepsString ptr))
        ⟨s', (ptr, w.length) :: t.live⟩ later u) := by
    intro hstart
    refine Run.always_iff (P := fun _ v => Duplicated ptr w v)
      (fun t e u u' h h' => Option.some.inj (h.1.symm.trans h'.1)) hstart ?_ hlater
    intro ls v e v' hrun hdup hstep
    have hv := hkept hrun.of_guarded
    obtain ⟨hv', hiff⟩ := hv.step hstep
    rw [hv'.duplicated_iff hnul]
    exact hiff ((hv.duplicated_iff hnul).1 hdup)
  constructor
  · intro hall
    have hstart := hall [] _ (List.nil_prefix) Run.nil
    exact ⟨(hcopied.duplicated_iff hnul).1 hstart, (halways hstart).1 hall⟩
  · rintro ⟨hzero, hguarded⟩
    exact (halways ((hcopied.duplicated_iff hnul).2 hzero)).2 hguarded

/-- The event is one of other objects. -/
def keepsObject (ptr : ℕ) (t : MallocState) : MallocEvent → Bool
  | .malloc .. => true
  | .free p => p ≠ ptr
  | .write a _ => t.live.any fun x => x.1 ≠ ptr ∧ inObject t.store x.1 a

/-- The check of the example is enough for the condition. -/
theorem keepsString_of_keepsObject {e : MallocEvent} (hkeeps : keepsObject ptr t e = true)
    (hstep : mallocStep t e = some u) : KeepsString ptr t e u := by
  refine ⟨hstep, ?_, ?_⟩
  · rintro rfl
    exact of_decide_eq_true hkeeps rfl
  · rintro a v rfl
    obtain ⟨x, hx, hobject⟩ := List.any_eq_true.1 hkeeps
    exact ⟨x, hx, of_decide_eq_true hobject⟩

/-- Two objects; an `X` and then a zero are stored into the first, and it is freed. -/
def beforeMary : List MallocEvent :=
  [.malloc 8 .normal (some 524288), .malloc 8 .normal none, .write 2147483724 0x58,
    .write 2147483724 0, .free 2147483720]

/-- The second object is stored into and freed, and one of another size is allocated. -/
def behindMary : List MallocEvent :=
  [.write 2147483736 0x41, .malloc 16 .normal (some 524289), .free 2147483736]

/-- **A name in an object that was used before:** the byte behind it is zero, and the
other objects are used further. -/
theorem strdup_string_iff_mary :
    ∃ s s' t ptr u,
      initSlab (fun c => some (10 + c.val)) (SlabState.init fun _ => 0xff).store = some s ∧
      Run (fun t e u => mallocStep t e = some u) ⟨s, []⟩ beforeMary t ∧
      strdup [0x4d, 0x41, 0x52, 0x59] .normal none t.store = some (some ptr, s') ∧
      Run (KeepsString ptr) ⟨s', (ptr, 4) :: t.live⟩ behindMary u ∧
      ∀ ls' u', ls' <+: behindMary → Run (KeepsString ptr) ⟨s', (ptr, 4) :: t.live⟩ ls' u' →
        Duplicated ptr [0x4d, 0x41, 0x52, 0x59] u' := by
  have hrun : ((initSlab (fun c => some (10 + c.val)) (SlabState.init fun _ => 0xff).store).bind
      fun s => (beforeMary.foldlM mallocStep ⟨s, []⟩).bind fun t =>
        (strdup [0x4d, 0x41, 0x52, 0x59] .normal none t.store).bind fun r =>
          (behindMary.foldlM
            (fun v e => if keepsObject 2147483720 v e then mallocStep v e else none)
            ⟨r.2, (2147483720, 4) :: t.live⟩).map fun u =>
              (r.1, freshPage t.store none, t.store.mem 2147483724)) =
        some (some 2147483720, true, 0) := by
    decide +kernel
  obtain ⟨s, hinit, hrun⟩ := Option.bind_eq_some_iff.1 hrun
  obtain ⟨t, hfold, hrun⟩ := Option.bind_eq_some_iff.1 hrun
  obtain ⟨⟨r, s'⟩, hdup, hrun⟩ := Option.bind_eq_some_iff.1 hrun
  obtain ⟨u, hlater, hlast⟩ := Option.map_eq_some_iff.1 hrun
  obtain ⟨rfl, hpair⟩ := Prod.mk.inj hlast
  obtain ⟨hfresh, hbehind⟩ := Prod.mk.inj hpair
  have hbefore : Run (fun t e u => mallocStep t e = some u) ⟨s, []⟩ beforeMary t :=
    Run.of_foldlM hfold
  have hchecked : Run (guarded (fun v e => keepsObject 2147483720 v e = true) fun v e u =>
      mallocStep v e = some u) ⟨s', (2147483720, 4) :: t.live⟩ behindMary u :=
    Run.of_checked (fun _ _ h => h) hlater
  have hkeeps : Run (KeepsString 2147483720) ⟨s', (2147483720, 4) :: t.live⟩ behindMary u :=
    hchecked.mono fun _ _ _ h => keepsString_of_keepsObject h.1 h.2
  have hnul : ∀ (v : MallocState), ∀ e ∈ behindMary, StoresNul 2147483724 e := by
    intro v e he w hw
    subst hw
    simp [behindMary] at he
  refine ⟨s, s', t, _, u, hinit, hbefore, hdup, hkeeps, (strdup_string_iff (fun c c' n h h' => ?_)
    hinit hbefore (by decide) (by decide) (by decide) hfresh hdup hkeeps).2
    ⟨Or.inr hbehind, hkeeps.to_guarded hnul⟩⟩
  exact Fin.ext (Nat.add_left_cancel (Option.some.inj (h.trans h'.symm)))

/-- `strdup` gets an object that an `X` was stored into before it was freed, and
the copy of `MARY` is `MARYX`. -/
theorem strdup_recycled :
    ∃ s s' t ptr,
      initSlab (fun c => some (10 + c.val)) (SlabState.init fun _ => 0xff).store = some s ∧
      Run (fun t e u => mallocStep t e = some u) ⟨s, []⟩ [.malloc 8 .normal (some 524288),
        .write 2147483724 0x58, .free 2147483720] t ∧
      strdup [0x4d, 0x41, 0x52, 0x59] .normal none t.store = some (some ptr, s') ∧
      ¬ Duplicated ptr [0x4d, 0x41, 0x52, 0x59] ⟨s', (ptr, 4) :: t.live⟩ := by
  have hrun : ((initSlab (fun c => some (10 + c.val)) (SlabState.init fun _ => 0xff).store).bind
      fun s => ([.malloc 8 .normal (some 524288), .write 2147483724 0x58,
        .free 2147483720].foldlM mallocStep ⟨s, []⟩).bind fun t =>
          (strdup [0x4d, 0x41, 0x52, 0x59] .normal none t.store).map fun r =>
            (r.1, r.2.mem 2147483724)) = some (some 2147483720, 0x58) := by
    decide +kernel
  obtain ⟨s, hinit, hrun⟩ := Option.bind_eq_some_iff.1 hrun
  obtain ⟨t, hfold, hrun⟩ := Option.bind_eq_some_iff.1 hrun
  obtain ⟨⟨r, s'⟩, hdup, hlast⟩ := Option.map_eq_some_iff.1 hrun
  obtain ⟨rfl, hbehind⟩ := Prod.mk.inj hlast
  refine ⟨s, s', t, _, hinit, Run.of_foldlM hfold, hdup, fun h => ?_⟩
  have hzero : s'.mem 2147483724 = 0 := h.1.2
  rw [hbehind] at hzero
  exact absurd hzero (by decide)

end Hvf
