/-
# Which guest copies are byte exact

`__memcpy_tofrom_guest` translates the address of the first byte for every
piece it copies.  Each piece but the last is `c` bytes long, `c` the rest of the
host page of the first byte, so byte `i` of the buffer is exchanged with the host
byte `i % c` past the first one (`copyLoop_fetched`, `copyLoop_stored`).  That is
the byte it should be exchanged with if the range stays inside one page, or if it
starts at a page boundary and its pages all have the same frame
(`guestCopy_exact_iff`).
-/

import Hvf.Mm.GuestCopy

namespace Hvf

/-- The bytes from `hostAddr` to the end of its page. -/
def pageRest (hostAddr : ℕ) : ℕ := pageSize - hostAddr % pageSize

/-- What is left of a page behind an address in it is not empty. -/
theorem pageRest_pos (hostAddr : ℕ) : 0 < pageRest hostAddr := by
  have := Nat.mod_lt hostAddr (show 0 < pageSize by decide)
  unfold pageRest
  omega

/-- A round copies to the end of the page, or what is left. -/
theorem copyLen_eq (hostAddr left : ℕ) : copyLen hostAddr left = min (pageRest hostAddr) left :=
  rfl

/-! ### The loop -/

section Loop

variable {frames : ℕ → Option ℕ} {g hostAddr : ℕ}

/-- One round of the loop when the first page is mapped. -/
theorem copyLoop_round (h : virt2phyCurrent frames g = some hostAddr) (fromGuest : Bool)
    (copied : ℕ) {left : ℕ} (hleft : left ≠ 0) (mem data : ℕ → UInt8) :
    copyLoop frames g fromGuest copied left mem data =
      copyLoop frames g fromGuest (copied + copyLen hostAddr left)
        (left - copyLen hostAddr left)
        (bif fromGuest then mem else memcpy mem hostAddr data copied (copyLen hostAddr left))
        (bif fromGuest then memcpy data copied mem hostAddr (copyLen hostAddr left)
          else data) := by
  rw [copyLoop, dif_neg hleft, h]
  cases fromGuest <;> rfl

/-- With nothing left the copy is done. -/
theorem copyLoop_done (frames : ℕ → Option ℕ) (g : ℕ) (fromGuest : Bool) (copied : ℕ)
    (mem data : ℕ → UInt8) :
    copyLoop frames g fromGuest copied 0 mem data = ⟨0, copied, mem, data⟩ := by
  rw [copyLoop, dif_pos rfl]

/-- **A copy whose first page is mapped never fails.** -/
theorem copyLoop_ret (h : virt2phyCurrent frames g = some hostAddr) (fromGuest : Bool)
    (left copied : ℕ) (mem data : ℕ → UInt8) :
    (copyLoop frames g fromGuest copied left mem data).ret = 0 ∧
      (copyLoop frames g fromGuest copied left mem data).len = copied + left := by
  induction left using Nat.strong_induction_on generalizing copied mem data with
  | _ left ih =>
    by_cases hleft : left = 0
    · subst hleft
      rw [copyLoop_done]
      exact ⟨rfl, rfl⟩
    · have hpos := copyLen_pos hostAddr hleft
      have hle : copyLen hostAddr left ≤ left := Nat.min_le_right _ _
      rw [copyLoop_round h fromGuest copied hleft]
      obtain ⟨hret, hlen⟩ := ih (left - copyLen hostAddr left) (by omega)
        (copied + copyLen hostAddr left) _ _
      exact ⟨hret, hlen.trans (by omega)⟩

/-- **What is fetched:** byte `i` of the piece is the host byte `i % c` past the
first one. -/
theorem copyLoop_fetched (h : virt2phyCurrent frames g = some hostAddr)
    (left copied : ℕ) (mem data : ℕ → UInt8) :
    (copyLoop frames g true copied left mem data).mem = mem ∧
      ∀ i, (copyLoop frames g true copied left mem data).data i =
        if copied ≤ i ∧ i < copied + left then mem (hostAddr + (i - copied) % pageRest hostAddr)
        else data i := by
  induction left using Nat.strong_induction_on generalizing copied data with
  | _ left ih =>
    by_cases hleft : left = 0
    · subst hleft
      rw [copyLoop_done]
      exact ⟨rfl, fun i => (if_neg (by omega)).symm⟩
    · have hpos := copyLen_pos hostAddr hleft
      have hle : copyLen hostAddr left ≤ left := Nat.min_le_right _ _
      rw [copyLoop_round h true copied hleft, cond_true, cond_true]
      obtain ⟨hmem, hdata⟩ := ih (left - copyLen hostAddr left) (by omega)
        (copied + copyLen hostAddr left) (memcpy data copied mem hostAddr (copyLen hostAddr left))
      refine ⟨hmem, fun i => (hdata i).trans ?_⟩
      have hrest := pageRest_pos hostAddr
      have hlen := copyLen_eq hostAddr left
      by_cases hfirst : copied ≤ i ∧ i < copied + copyLen hostAddr left
      · -- a byte of this round
        rw [if_neg (by omega), if_pos (by omega), memcpy, if_pos (by omega),
          Nat.mod_eq_of_lt (by omega)]
      · by_cases hlater : copied ≤ i ∧ i < copied + left
        · -- a byte of a later round, so this one ended at the end of the page
          have hfull : copyLen hostAddr left = pageRest hostAddr := by omega
          have hi : i - copied = i - (copied + pageRest hostAddr) + pageRest hostAddr := by omega
          rw [if_pos (by omega), if_pos hlater, hfull, hi, Nat.add_mod_right]
        · rw [if_neg (by omega), if_neg hlater, memcpy, if_neg (by omega)]

/-- **What is stored:** nothing outside the rest of the first page, and there the
last of the bytes that are `c` apart. -/
theorem copyLoop_stored (h : virt2phyCurrent frames g = some hostAddr)
    (left copied : ℕ) (mem data : ℕ → UInt8) :
    (copyLoop frames g false copied left mem data).data = data ∧
      (∀ a, a < hostAddr ∨ hostAddr + min (pageRest hostAddr) left ≤ a →
        (copyLoop frames g false copied left mem data).mem a = mem a) ∧
      ∀ i, copied ≤ i → i < copied + left → copied + left ≤ i + pageRest hostAddr →
        (copyLoop frames g false copied left mem data).mem
          (hostAddr + (i - copied) % pageRest hostAddr) = data i := by
  induction left using Nat.strong_induction_on generalizing copied mem with
  | _ left ih =>
    by_cases hleft : left = 0
    · subst hleft
      rw [copyLoop_done]
      exact ⟨rfl, fun _ _ => rfl, fun i _ _ _ => by omega⟩
    · have hpos := copyLen_pos hostAddr hleft
      have hle : copyLen hostAddr left ≤ left := Nat.min_le_right _ _
      have hlen := copyLen_eq hostAddr left
      have hrest := pageRest_pos hostAddr
      rw [copyLoop_round h false copied hleft, cond_false, cond_false]
      obtain ⟨hdata, hframe, hstored⟩ := ih (left - copyLen hostAddr left) (by omega)
        (copied + copyLen hostAddr left) (memcpy mem hostAddr data copied (copyLen hostAddr left))
      refine ⟨hdata, fun a ha => (hframe a (by omega)).trans ?_, fun i hi hlt hlast => ?_⟩
      · exact if_neg (by omega)
      · by_cases hfirst : i < copied + copyLen hostAddr left
        · -- the byte is stored in this round and overwritten in no later one
          rw [Nat.mod_eq_of_lt (by omega)]
          refine (hframe _ (by omega)).trans ?_
          rw [memcpy, if_pos (by omega)]
          congr 1
          omega
        · have hfull : copyLen hostAddr left = pageRest hostAddr := by omega
          have hi' : i - copied = i - (copied + pageRest hostAddr) + pageRest hostAddr := by omega
          have hmod := hstored i (by omega) (by omega) (by omega)
          rw [hfull] at hmod ⊢
          rwa [hi', Nat.add_mod_right]

end Loop

/-! ### Addresses -/

/-- An address translates to the frame of its page, with its offset. -/
theorem virt2phyCurrent_eq_some {frames : ℕ → Option ℕ} {v a : ℕ} :
    virt2phyCurrent frames v = some a ↔
      frames (v / 4096) = some (a / 4096) ∧ a % 4096 = v % 4096 := by
  rw [virt2phyCurrent, Option.map_eq_some_iff, pageSize_eq]
  constructor
  · rintro ⟨frame, hframe, rfl⟩
    have hdiv : (frame * 4096 + v % 4096) / 4096 = frame := by omega
    rw [hdiv]
    exact ⟨hframe, by omega⟩
  · rintro ⟨hframe, hmod⟩
    exact ⟨a / 4096, hframe, by omega⟩

/-- An address does not translate exactly when its page has no frame. -/
theorem virt2phyCurrent_eq_none {frames : ℕ → Option ℕ} {v : ℕ} :
    virt2phyCurrent frames v = none ↔ frames (v / 4096) = none := by
  rw [virt2phyCurrent, Option.map_eq_none_iff, pageSize_eq]

section Exact

variable {frames : ℕ → Option ℕ} {g n hostAddr : ℕ}

/-- The copy loop addresses the right host byte for every byte of the range. -/
def RightBytes (frames : ℕ → Option ℕ) (g n hostAddr : ℕ) : Prop :=
  ∀ i < n, virt2phyCurrent frames (g + i) = some (hostAddr + i % pageRest hostAddr)

/-- The range stays inside one page, or it starts at a page boundary and all its
pages have the same frame. -/
def OneFrame (frames : ℕ → Option ℕ) (g n : ℕ) : Prop :=
  g % 4096 + n ≤ 4096 ∨
    g % 4096 = 0 ∧ ∀ i < n, frames ((g + i) / 4096) = frames (g / 4096)

/-- Where all bytes of a copy are in one frame's reach, the right ones are copied. -/
theorem rightBytes_of_oneFrame (h : virt2phyCurrent frames g = some hostAddr)
    (hone : OneFrame frames g n) : RightBytes frames g n hostAddr := by
  obtain ⟨hframe, hmod⟩ := virt2phyCurrent_eq_some.1 h
  have hc : pageRest hostAddr = 4096 - g % 4096 := by rw [pageRest, pageSize_eq, hmod]
  intro i hi
  rw [virt2phyCurrent_eq_some, hc]
  rcases hone with hpage | ⟨hzero, hsame⟩
  · rw [Nat.mod_eq_of_lt (by omega)]
    have hdiv : (g + i) / 4096 = g / 4096 := by omega
    have hdiv' : (hostAddr + i) / 4096 = hostAddr / 4096 := by omega
    rw [hdiv, hdiv']
    exact ⟨hframe, by omega⟩
  · have hdiv : (hostAddr + i % (4096 - g % 4096)) / 4096 = hostAddr / 4096 := by
      rw [hzero]
      omega
    rw [hsame i hi, hdiv]
    refine ⟨hframe, ?_⟩
    rw [hzero]
    omega

/-- If every target is in the rest of the first page, it is the right one. -/
theorem oneFrame_of_targets (h : virt2phyCurrent frames g = some hostAddr)
    (htarget : ∀ i < n, ∃ a, virt2phyCurrent frames (g + i) = some a ∧
      hostAddr ≤ a ∧ a < hostAddr + pageRest hostAddr) : OneFrame frames g n := by
  obtain ⟨hframe, hmod⟩ := virt2phyCurrent_eq_some.1 h
  have hc : pageRest hostAddr = 4096 - g % 4096 := by rw [pageRest, pageSize_eq, hmod]
  by_cases hpage : g % 4096 + n ≤ 4096
  · exact Or.inl hpage
  · -- the first byte of the second page has offset 0 and is not below `hostAddr`
    obtain ⟨a, ha, hle, hlt⟩ := htarget (4096 - g % 4096) (by omega)
    have hoff := (virt2phyCurrent_eq_some.1 ha).2
    refine Or.inr ⟨by omega, fun i hi => ?_⟩
    obtain ⟨b, hb, hble, hblt⟩ := htarget i hi
    have hbframe := (virt2phyCurrent_eq_some.1 hb).1
    have hdiv : b / 4096 = hostAddr / 4096 := by omega
    rw [hbframe, hframe, hdiv]

/-- **Enough.** -/
theorem byteExact_of_rightBytes (h : virt2phyCurrent frames g = some hostAddr)
    (hright : RightBytes frames g n hostAddr) (fromGuest : Bool) (mem data : ℕ → UInt8) :
    ByteExact frames g n fromGuest mem data
      (memcpyTofromGuest frames g n fromGuest mem data) := by
  unfold memcpyTofromGuest
  obtain ⟨hret, hlen⟩ := copyLoop_ret h fromGuest n 0 mem data
  rw [Nat.zero_add] at hlen
  have hrest := pageRest_pos hostAddr
  constructor
  case all_mapped => exact fun _ => ⟨hret, hlen⟩
  case fault =>
    intro k hk _ hnone
    rw [hright k hk] at hnone
    exact absurd hnone (by simp)
  case fetched =>
    rintro rfl i hi a ha
    rw [hlen] at hi
    rw [hright i hi, Option.some_inj] at ha
    rw [(copyLoop_fetched h n 0 mem data).2 i, if_pos (by omega), Nat.sub_zero, ha]
  case stored =>
    intro hto i hi a ha hlast
    obtain rfl : fromGuest = false := by simpa using hto
    rw [hlen] at hi hlast
    rw [hright i hi, Option.some_inj] at ha
    subst ha
    -- a later byte one page rest away would have the same target
    have hfar : n ≤ i + pageRest hostAddr := by
      by_contra hnear
      refine hlast (i + pageRest hostAddr) (by omega) (by omega) ?_
      rw [hright _ (by omega), Nat.add_mod_right]
    exact (copyLoop_stored h n 0 mem data).2.2 i (Nat.zero_le i) (by omega) (by omega)
  case data_frame =>
    intro i hi
    cases fromGuest with
    | false => rw [(copyLoop_stored h n 0 mem data).1]
    | true =>
      have := hi rfl
      rw [(copyLoop_fetched h n 0 mem data).2 i, if_neg (by omega)]
  case mem_frame =>
    intro a ha
    cases fromGuest with
    | true => rw [(copyLoop_fetched h n 0 mem data).1]
    | false =>
      refine (copyLoop_stored h n 0 mem data).2.1 a ?_
      by_contra hin
      refine ha (by simp) (a - hostAddr) (by omega) ?_
      rw [hright _ (by omega), Nat.mod_eq_of_lt (by omega)]
      congr 1
      omega

/-- Among the bytes with one target there is a last. -/
theorem exists_last_target {i a : ℕ} (ha : virt2phyCurrent frames (g + i) = some a) (hi : i < n) :
    ∃ j, (i ≤ j ∧ j < n ∧ virt2phyCurrent frames (g + j) = some a) ∧
      ∀ k, j < k → k < n → virt2phyCurrent frames (g + k) ≠ some a := by
  let P := fun j => i ≤ j ∧ j < n ∧ virt2phyCurrent frames (g + j) = some a
  have hP : P i := ⟨Nat.le_refl i, hi, ha⟩
  have hspec := Nat.findGreatest_spec (P := P) (Nat.le_of_lt hi) hP
  refine ⟨Nat.findGreatest P n, hspec, fun k hk hkn hka => ?_⟩
  exact Nat.findGreatest_is_greatest hk (Nat.le_of_lt hkn) ⟨by have := hspec.1; omega, hkn, hka⟩

/-- **Necessary:** with contents that tell the rest of the first page from all
other bytes, an exact copy has all its targets there. -/
theorem targets_of_byteExact (h : virt2phyCurrent frames g = some hostAddr) (fromGuest : Bool)
    (hexact : ∀ mem data, ByteExact frames g n fromGuest mem data
      (memcpyTofromGuest frames g n fromGuest mem data)) :
    ∀ i < n, ∃ a, virt2phyCurrent frames (g + i) = some a ∧
      hostAddr ≤ a ∧ a < hostAddr + pageRest hostAddr := by
  have hmapped : ∀ i < n, virt2phyCurrent frames (g + i) ≠ none := by
    intro i
    induction i using Nat.strong_induction_on with
    | _ i ih =>
      intro hi hnone
      have hfault := (hexact (fun _ => 0) (fun _ => 0)).fault i hi
        (fun j hj => ih j hj (by omega)) hnone
      rw [memcpyTofromGuest, (copyLoop_ret h _ _ _ _ _).1] at hfault
      exact absurd hfault.1 (by decide)
  have hrest := pageRest_pos hostAddr
  intro i hi
  obtain ⟨a, ha⟩ := Option.ne_none_iff_exists'.1 (hmapped i hi)
  refine ⟨a, ha, ?_⟩
  cases fromGuest with
  | true =>
    let mem : ℕ → UInt8 := fun a =>
      if hostAddr ≤ a ∧ a < hostAddr + pageRest hostAddr then 1 else 0
    have hbyte := (hexact mem (fun _ => 0)).fetched rfl i
      (by rw [memcpyTofromGuest, (copyLoop_ret h _ _ _ _ _).2]; omega) a ha
    have hmod := Nat.mod_lt i hrest
    rw [memcpyTofromGuest, (copyLoop_fetched h n 0 mem _).2 i, if_pos (by omega), Nat.sub_zero]
      at hbyte
    simp only [mem] at hbyte
    rw [if_pos (by omega)] at hbyte
    by_contra hout
    rw [if_neg hout] at hbyte
    exact absurd hbyte (by decide)
  | false =>
    by_contra hout
    -- the last byte with the same target must have been stored there
    obtain ⟨j, ⟨hij, hjn, hja⟩, hmax⟩ := exists_last_target ha hi
    have hbyte := (hexact (fun _ => 0) (fun _ => 1)).stored (by simp) j
      (by rw [memcpyTofromGuest, (copyLoop_ret h _ _ _ _ _).2]; omega) a hja
      (fun k hk hkn => hmax k hk (by
        rw [memcpyTofromGuest, (copyLoop_ret h _ _ _ _ _).2] at hkn; omega))
    rw [memcpyTofromGuest, (copyLoop_stored h n 0 _ _).2.1 a (by omega)] at hbyte
    exact absurd hbyte (by decide)

/-- A range whose first page is not mapped: nothing is copied. -/
theorem byteExact_of_unmapped (h : virt2phyCurrent frames g = none) (fromGuest : Bool)
    (mem data : ℕ → UInt8) :
    ByteExact frames g n fromGuest mem data
      (memcpyTofromGuest frames g n fromGuest mem data) := by
  by_cases hn : n = 0
  · subst hn
    rw [memcpyTofromGuest, copyLoop_done]
    refine ⟨fun _ => ⟨rfl, rfl⟩, fun k hk => ?_, fun _ i hi => ?_, fun _ i hi => ?_,
      fun _ _ => rfl, fun _ _ => rfl⟩
    all_goals exact absurd ‹_ < 0› (Nat.not_lt_zero _)
  · have hfault : memcpyTofromGuest frames g n fromGuest mem data = ⟨-efault, 0, mem, data⟩ := by
      rw [memcpyTofromGuest, copyLoop, dif_neg hn, h]
    rw [hfault]
    refine ⟨fun hall => ?_, fun k _ hbefore _ => ?_, fun _ i hi => ?_, fun _ i hi => ?_,
      fun _ _ => rfl, fun _ _ => rfl⟩
    · exact absurd h (hall 0 (by omega))
    · by_cases hk : k = 0
      · exact ⟨rfl, hk.symm⟩
      · exact absurd h (hbefore 0 (by omega))
    all_goals exact absurd ‹_ < 0› (Nat.not_lt_zero _)

end Exact

/-- **Which copies are byte exact.**  A copy of `n` bytes from or to guest
address `g` is byte exact, whatever storage and buffer contain, exactly if the
page of `g` is not mapped, the range stays inside one page, or `g` is at a page
boundary and all pages of the range have the same frame. -/
theorem guestCopy_exact_iff (frames : ℕ → Option ℕ) (g n : ℕ) (fromGuest : Bool) :
    (∀ mem data, ByteExact frames g n fromGuest mem data
        (memcpyTofromGuest frames g n fromGuest mem data)) ↔
      frames (g / 4096) = none ∨ g % 4096 + n ≤ 4096 ∨
        g % 4096 = 0 ∧ ∀ i < n, frames ((g + i) / 4096) = frames (g / 4096) := by
  rcases h : virt2phyCurrent frames g with _ | hostAddr
  · have hnone := virt2phyCurrent_eq_none.1 h
    exact ⟨fun _ => Or.inl hnone, fun _ mem data => byteExact_of_unmapped h fromGuest mem data⟩
  · have hsome := (virt2phyCurrent_eq_some.1 h).1
    constructor
    · intro hexact
      exact Or.inr (oneFrame_of_targets h (targets_of_byteExact h fromGuest hexact))
    · rintro (hnone | hone) mem data
      · rw [hnone] at hsome
        cases hsome
      · exact byteExact_of_rightBytes h (rightBytes_of_oneFrame h hone) fromGuest mem data

/-- Two bytes across a page boundary, pages 0 and 1 in frames 5 and 9: the second
byte is fetched from the end of frame 5. -/
theorem guestCopy_crossing :
    ¬ ByteExact (fun page => if page = 0 then some 5 else if page = 1 then some 9 else none)
      4095 2 true (fun a => if a = 36864 then 7 else 0) (fun _ => 0)
      (memcpyTofromGuest
        (fun page => if page = 0 then some 5 else if page = 1 then some 9 else none)
        4095 2 true (fun a => if a = 36864 then 7 else 0) (fun _ => 0)) := by
  intro hexact
  have hfirst : virt2phyCurrent
      (fun page => if page = 0 then some 5 else if page = 1 then some 9 else none) 4095
        = some 24575 := by decide
  have hsecond : virt2phyCurrent
      (fun page => if page = 0 then some 5 else if page = 1 then some 9 else none) (4095 + 1)
        = some 36864 := by decide
  have hbyte := hexact.fetched rfl 1
    (by rw [memcpyTofromGuest, (copyLoop_ret hfirst _ _ _ _ _).2]; decide) 36864 hsecond
  rw [memcpyTofromGuest, (copyLoop_fetched hfirst 2 0 _ _).2 1, if_pos (by omega)] at hbyte
  exact absurd hbyte (by decide)

end Hvf
