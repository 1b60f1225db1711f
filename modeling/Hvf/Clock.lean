/-
# The time of day

`parse_tod` of `lib/clock.c`.  The TOD clock counts 4096 units a microsecond from
1900 on and does not stop for leap seconds.  The table has, newest first, the
clock values at which a leap second has just ended, with the dates.

`tod` is a 64-bit value and its arithmetic wraps; the fields of a `struct datetime`
stay far below the limits of a `short`.  The two unbounded loops have a bound on
their rounds, `fuel`; `none` is the `NULL` that `parse_tod` can return, or the
bound reached.
-/

import Hvf.Lib.Calendar
import Mathlib.Data.List.GetD
import Mathlib.Tactic

namespace Hvf

open Calendar

/-- `CLK_SEC`: a second in units of the TOD clock, whose bit 51 is a microsecond. -/
def clkSec : ℕ := 0xf4240000
/-- `CLK_MIN`: a minute in TOD units. -/
def clkMin : ℕ := 0x3938700000
/-- `CLK_HOUR`: an hour in TOD units. -/
def clkHour : ℕ := 0xd693a400000
/-- `CLK_DAY`: a day in TOD units. -/
def clkDay : ℕ := 0x141dd76000000
/-- `CLK_YEAR`: a year of 365 days in TOD units. -/
def clkYear : ℕ := 0x1cae8c13e000000

/-- `LS_NONE`: the table entry begins no leap second. -/
def lsNone : ℕ := 0x00
/-- `LS_LS`: the table entry is a leap second. -/
def lsLs : ℕ := 0x10

/-- `LS_YM2DATE`. -/
def lsYm2date (y m f : ℕ) : ℕ := y <<< 8 ||| f ||| m

/-- **A row of the table of leap seconds** (`struct leap_sec_info`): the TOD value behind
the leap second, and its date as the table has it, for the comparison with the day that was
found. -/
structure LeapSecInfo where
  tod : ℕ
  date : ℕ
deriving Inhabited

/-- `LS_DATE2Y`. -/
def LeapSecInfo.y (e : LeapSecInfo) : ℕ := e.date >>> 8

/-- `LS_DATE2M`. -/
def LeapSecInfo.m (e : LeapSecInfo) : ℕ := e.date &&& 0xf

/-- `LS_DATE2F`. -/
def LeapSecInfo.f (e : LeapSecInfo) : ℕ := e.date &&& lsLs

/-- `leap_secs`. -/
def leapSecs : List LeapSecInfo :=
  [⟨0xC3870CB9BB600000, lsYm2date 2009 1 lsLs⟩,
    ⟨0xBE251097973C0000, lsYm2date 2006 1 lsLs⟩,
    ⟨0xB1962F9305180000, lsYm2date 1999 1 lsLs⟩,
    ⟨0xAEE3EFA402F40000, lsYm2date 1997 7 lsLs⟩,
    ⟨0xAC34336FECD00000, lsYm2date 1996 1 lsLs⟩,
    ⟨0xA981F380EAAC0000, lsYm2date 1994 7 lsLs⟩,
    ⟨0xA7B70ABEB8880000, lsYm2date 1993 7 lsLs⟩,
    ⟨0xA5EC21FC86640000, lsYm2date 1992 7 lsLs⟩,
    ⟨0xA33C65C870400000, lsYm2date 1991 1 lsLs⟩,
    ⟨0xA1717D063E1C0000, lsYm2date 1990 1 lsLs⟩,
    ⟨0x9DDA69A557F80000, lsYm2date 1988 1 lsLs⟩,
    ⟨0x995D40F517D40000, lsYm2date 1985 7 lsLs⟩,
    ⟨0x95C62D9431B00000, lsYm2date 1983 7 lsLs⟩,
    ⟨0x93FB44D1FF8C0000, lsYm2date 1982 7 lsLs⟩,
    ⟨0x92305C0FCD680000, lsYm2date 1981 7 lsLs⟩,
    ⟨0x8F809FDBB7440000, lsYm2date 1980 1 lsLs⟩,
    ⟨0x8DB5B71985200000, lsYm2date 1979 1 lsLs⟩,
    ⟨0x8BEACE5752FC0000, lsYm2date 1978 1 lsLs⟩,
    ⟨0x8A1FE59520D80000, lsYm2date 1977 1 lsLs⟩,
    ⟨0x8853BAF578B40000, lsYm2date 1976 1 lsLs⟩,
    ⟨0x8688D23346900000, lsYm2date 1975 1 lsLs⟩,
    ⟨0x84BDE971146C0000, lsYm2date 1974 1 lsLs⟩,
    ⟨0x82F300AEE2480000, lsYm2date 1973 1 lsLs⟩,
    ⟨0x820BA9811E240000, lsYm2date 1972 7 lsLs⟩,
    ⟨0x8126D60E46000000, lsYm2date 1972 1 lsNone⟩,
    ⟨0x0000000000000000, lsYm2date 1900 1 lsNone⟩]

/-- `leap_secs[i]`. -/
def leapSec (i : ℕ) : LeapSecInfo := leapSecs.getD i default

/-- The first two loops of `parse_tod`: the place of the newest entry not after `tod`. -/
def leapSecIndex (tod : ℕ) : ℕ := leapSecs.findIdx fun e => e.tod ≤ tod

/-- `month_offsets`. -/
def monthOffsets : List (List ℕ) :=
  [[0, 31, 59, 90, 120, 151, 181, 212, 243, 273, 304, 334],
    [0, 31, 60, 91, 121, 152, 182, 213, 244, 274, 305, 335]]

/-- `leap_year`. -/
def leapYear (year : ℕ) : Bool := year % 4 = 0 && (year % 100 ≠ 0 || year % 400 = 0)

/-- `month_offsets[leap_year(year)][i]`. -/
def monthOffset (year i : ℕ) : ℕ := (monthOffsets.getD (leapYear year).toNat []).getD i 0

/-- **A date and time of day** (`struct datetime`), with the microsecond; the members are
the source's. -/
structure Datetime where
  dy : ℕ
  dm : ℕ
  dd : ℕ
  th : ℕ
  tm : ℕ
  ts : ℕ
  tmicro : ℕ
deriving DecidableEq

/-- A subtraction from `tod`. -/
def sub64 (a b : ℕ) : ℕ := (a + (2 ^ 64 - b)) % 2 ^ 64

/-- The loop over years. -/
def yearLoop (dm : ℕ) : ℕ → ℕ → ℕ → Option (ℕ × ℕ)
  | 0, _, _ => none
  | fuel + 1, dy, tod =>
    let done :=
      if leapYear (if dm = 1 then dy else dy + 1) then decide (tod < clkYear + clkDay)
      else decide (tod < clkYear)
    if done then some (dy, tod)
    else
      let tod :=
        if dm = 1 && leapYear dy || dm = 7 && leapYear (dy + 1) then sub64 tod (clkYear + clkDay)
        else sub64 tod clkYear
      yearLoop dm fuel (dy + 1) tod

/-- The inner loop over months, for the day `day` of the year. -/
def monthSearch (year day dm : ℕ) : ℕ :=
  if dm < 12 ∧ day ≥ monthOffset year dm then monthSearch year day (dm + 1) else dm
termination_by 12 - dm

/-- The outer loop over months; days are counted from 0. -/
def monthLoop : ℕ → ℕ → ℕ → ℕ → Option (ℕ × ℕ × ℕ)
  | 0, _, _, _ => none
  | fuel + 1, dy, dm, dd =>
    let i := monthOffset dy (dm - 1)
    let dm := monthSearch dy (i + dd) dm
    let dd := dd + i - monthOffset dy (dm - 1)
    if dm < 12 ∨ dd < 31 then some (dy, dm, dd) else monthLoop fuel (dy + 1) 1 (dd - 31)

/-- The end of `parse_tod`: the time of day. -/
def parseTime (dy dm dd tod addSec : ℕ) : Datetime :=
  let th := tod / clkHour
  let tod := sub64 tod (th * clkHour)
  let tm := tod / clkMin
  let tod := sub64 tod (tm * clkMin)
  let ts := tod / clkSec
  let tod := sub64 tod (ts * clkSec)
  { dy, dm, dd, th, tm, ts := ts + addSec, tmicro := (tod >>> 12) % 2 ^ 32 }

/-- `parse_tod`. -/
def parseTod (fuel : ℕ) (tod : UInt64) : Option Datetime := do
  let i := leapSecIndex tod.toNat
  let j := leapSecIndex ((tod.toNat + clkSec) % 2 ^ 64)
  let inLeap := i ≠ j ∧ (leapSec j).f = lsLs
  let tod := sub64 tod.toNat (leapSec i).tod
  let tod := if inLeap then sub64 tod clkSec else tod
  let addSec := if inLeap then 1 else 0
  let dm := (leapSec i).m
  if dm ≠ 1 ∧ dm ≠ 7 then none
  else
    let (dy, tod) ← yearLoop dm fuel (leapSec i).y tod
    let dd := tod / clkDay
    let tod := sub64 tod (dd * clkDay)
    let (dy, dm, dd) ← monthLoop fuel dy dm dd
    return parseTime dy dm (dd + 1) tod addSec

/-! ### The loops -/

/-- The test the code makes on a year is the Gregorian rule. -/
theorem leapYear_iff (y : ℕ) : leapYear y = true ↔ IsLeap y := by
  unfold leapYear IsLeap
  simp only [Bool.and_eq_true, Bool.or_eq_true, decide_eq_true_eq]
  omega

/-- The table is the calendar's. -/
theorem monthOffset_eq (y : ℕ) {m : ℕ} (hm : m < 12) :
    monthOffset y m = daysBeforeMonth y (m + 1) := by
  unfold monthOffset
  by_cases h : IsLeap y
  · rw [(leapYear_iff y).2 h]
    interval_cases m <;> simp [daysBeforeMonth, monthLength, monthOffsets, h]
  · rw [Bool.eq_false_iff.2 (mt (leapYear_iff y).1 h)]
    interval_cases m <;> simp [daysBeforeMonth, monthLength, monthOffsets, h]

/-- The first of January or July: the days before it. -/
def daysBefore (y m : ℕ) : ℕ := daysBeforeYear y + daysBeforeMonth y m

/-- The year from a first of January or July on. -/
theorem daysBefore_succ (y : ℕ) {m : ℕ} (hm : m = 1 ∨ m = 7) :
    daysBefore (y + 1) m
      = daysBefore y m + if leapYear (if m = 1 then y else y + 1) then 366 else 365 := by
  have hlength : ∀ y, yearLength y = if leapYear y then 366 else 365 := by
    intro y
    unfold yearLength
    by_cases h : IsLeap y
    · rw [if_pos h, if_pos ((leapYear_iff y).2 h)]
    · rw [if_neg h, if_neg (mt (leapYear_iff y).1 h)]
  have hjuly : ∀ y, daysBeforeMonth y 7 + 184 = yearLength y := by
    intro y
    rw [← daysBeforeMonth_year]
    simp [daysBeforeMonth, monthLength]
  unfold daysBefore
  rw [daysBeforeYear_succ]
  rcases hm with rfl | rfl
  · rw [if_pos rfl, ← hlength]
    simp only [daysBeforeMonth, monthLength]
    omega
  · rw [if_neg (show ¬ (7 : ℕ) = 1 by decide), ← hlength]
    have := hjuly y
    have := hjuly (y + 1)
    omega

/-- A 64-bit subtraction that does not borrow is the subtraction of the numbers. -/
theorem sub64_of_le {a b : ℕ} (h : b ≤ a) (ha : a < 2 ^ 64) : sub64 a b = a - b := by
  unfold sub64
  omega

/-- **The loop over years** ends and keeps the time. -/
theorem yearLoop_spec {dm : ℕ} (hdm : dm = 1 ∨ dm = 7) {fuel dy tod : ℕ} (htod : tod < 2 ^ 64)
    (hfuel : tod < fuel * clkYear) :
    ∃ dy' tod', yearLoop dm fuel dy tod = some (dy', tod') ∧ tod' < 366 * clkDay ∧
      daysBefore dy' dm * clkDay + tod' = daysBefore dy dm * clkDay + tod := by
  induction fuel generalizing dy tod with
  | zero => omega
  | succ fuel ih =>
    have hyear := daysBefore_succ dy hdm
    have hrule : (dm = 1 && leapYear dy || dm = 7 && leapYear (dy + 1))
        = leapYear (if dm = 1 then dy else dy + 1) := by
      rcases hdm with rfl | rfl
      · simp
      · simp
    rw [yearLoop]
    simp only [hrule]
    generalize leapYear (if dm = 1 then dy else dy + 1) = leap at hyear ⊢
    have hclk : clkYear = 365 * clkDay := rfl
    have hday : 0 < clkDay := by decide
    cases leap with
    | false =>
      simp only [Bool.false_eq_true, if_false] at hyear ⊢
      by_cases hdone : tod < clkYear
      · simp only [hdone, decide_true, if_true]
        exact ⟨dy, tod, rfl, by omega, rfl⟩
      · simp only [hdone, decide_false, Bool.false_eq_true, if_false]
        rw [sub64_of_le (by omega) htod]
        obtain ⟨dy', tod', hloop, hlt, hkeep⟩ := @ih (dy + 1) (tod - clkYear)
          (by omega) (by rw [Nat.succ_mul] at hfuel; omega)
        refine ⟨dy', tod', hloop, hlt, ?_⟩
        rw [hkeep, hyear, Nat.add_mul]
        omega
    | true =>
      simp only [if_true] at hyear ⊢
      by_cases hdone : tod < clkYear + clkDay
      · simp only [hdone, decide_true, if_true]
        exact ⟨dy, tod, rfl, by omega, rfl⟩
      · simp only [hdone, decide_false, Bool.false_eq_true, if_false]
        rw [sub64_of_le (by omega) htod]
        obtain ⟨dy', tod', hloop, hlt, hkeep⟩ := @ih (dy + 1)
          (tod - (clkYear + clkDay)) (by omega) (by rw [Nat.succ_mul] at hfuel; omega)
        refine ⟨dy', tod', hloop, hlt, ?_⟩
        rw [hkeep, hyear, Nat.add_mul]
        omega

/-- The inner loop over months stops in the month of the day, or in December. -/
theorem monthSearch_spec (y day : ℕ) {dm : ℕ} (hdm : dm ≤ 12) (hday : daysBeforeMonth y dm ≤ day) :
    dm ≤ monthSearch y day dm ∧ monthSearch y day dm ≤ 12 ∧
      daysBeforeMonth y (monthSearch y day dm) ≤ day ∧
      (monthSearch y day dm < 12 → day < daysBeforeMonth y (monthSearch y day dm + 1)) := by
  induction dm using monthSearch.induct y day with
  | case1 dm hcond ih =>
    rw [monthSearch, if_pos hcond]
    have hnext := hcond.2
    rw [monthOffset_eq y hcond.1] at hnext
    obtain ⟨hle, hrest⟩ := ih hcond.1 hnext
    exact ⟨by omega, hrest⟩
  | case2 dm hcond =>
    rw [monthSearch, if_neg hcond]
    refine ⟨le_rfl, hdm, hday, fun hlt => ?_⟩
    rw [← monthOffset_eq y hlt]
    by_contra hge
    exact hcond ⟨hlt, by omega⟩

/-- **The loop over months** ends with the date of the day. -/
theorem monthLoop_spec {fuel dy dm dd : ℕ} (hpos : 1 ≤ dm) (hdm : dm ≤ 12)
    (hfuel : dd < 31 * fuel) :
    ∃ dy' dm' dd', monthLoop fuel dy dm dd = some (dy', dm', dd') ∧ ValidDate dy' dm' (dd' + 1) ∧
      dayNumber dy' dm' (dd' + 1) = daysBefore dy dm + dd := by
  induction fuel generalizing dy dm dd with
  | zero => omega
  | succ fuel ih =>
    have hoffset : ∀ m, 1 ≤ m → m ≤ 12 → monthOffset dy (m - 1) = daysBeforeMonth dy m := by
      intro m h1 h12
      rw [monthOffset_eq dy (by omega), Nat.sub_add_cancel h1]
    obtain ⟨hle, hle12, hbefore, hafter⟩ := monthSearch_spec dy
      (daysBeforeMonth dy dm + dd) hdm (Nat.le_add_right _ _)
    rw [monthLoop]
    simp only [hoffset dm hpos hdm]
    generalize monthSearch dy (daysBeforeMonth dy dm + dd) dm = month at *
    rw [hoffset month (by omega) hle12]
    by_cases hlast : month < 12 ∨ dd + daysBeforeMonth dy dm - daysBeforeMonth dy month < 31
    · rw [if_pos hlast]
      refine ⟨dy, month, _, rfl, ⟨by omega, hle12, by omega, ?_⟩, ?_⟩
      · by_cases h12 : month < 12
        · have := hafter h12
          rw [daysBeforeMonth_succ] at this
          omega
        · obtain rfl : month = 12 := by omega
          show _ ≤ 31
          omega
      · unfold dayNumber daysBefore
        omega
    · rw [if_neg hlast]
      rw [not_or, Nat.not_lt, Nat.not_lt] at hlast
      obtain rfl : month = 12 := by omega
      have hmono := daysBeforeMonth_mono dy hdm
      obtain ⟨dy', dm', dd', hloop, hvalid, hnumber⟩ := @ih (dy + 1) 1
        (dd + daysBeforeMonth dy dm - daysBeforeMonth dy 12 - 31) le_rfl (by decide)
        (by omega)
      refine ⟨dy', dm', dd', hloop, hvalid, ?_⟩
      have hyear := daysBeforeMonth_year dy
      rw [daysBeforeMonth_succ, show monthLength dy 12 = 31 from rfl] at hyear
      rw [hnumber]
      unfold daysBefore
      rw [daysBeforeYear_succ, show daysBeforeMonth (dy + 1) 1 = 0 from rfl]
      omega

/-- **The time of day** is taken apart. -/
theorem parseTime_spec (dy dm dd addSec : ℕ) {tod : ℕ} (htod : tod < clkDay) :
    ∃ th tm ts tmicro, parseTime dy dm dd tod addSec = ⟨dy, dm, dd, th, tm, ts + addSec, tmicro⟩ ∧
      th < 24 ∧ tm < 60 ∧ ts < 60 ∧ tmicro < 10 ^ 6 ∧
      (th * 3600 + tm * 60 + ts) * 10 ^ 6 + tmicro = tod / 4096 ∧
      (clkDay - clkSec ≤ tod → ts = 59) := by
  have hday : clkDay = 353894400000000 := rfl
  have hhour : clkHour = 14745600000000 := rfl
  have hmin : clkMin = 245760000000 := rfl
  have hsec : clkSec = 4096000000 := rfl
  have hsub : ∀ t c, 0 < c → t < 2 ^ 64 → sub64 t (t / c * c) = t % c := by
    intro t c hc ht
    have hmul := Nat.div_add_mod' t c
    rw [sub64_of_le (by omega) ht]
    omega
  rw [hday] at htod
  rw [hday, hsec]
  unfold parseTime
  simp only [hhour, hmin, hsec]
  rw [hsub tod _ (by decide) (by omega), hsub (tod % 14745600000000) _ (by decide) (by omega),
    hsub (tod % 14745600000000 % 245760000000) _ (by decide) (by omega), Nat.shiftRight_eq_div_pow]
  exact ⟨_, _, _, _, rfl, by omega, by omega, by omega, by omega, by omega, fun _ => by omega⟩

/-! ### The table -/

/-- The leap seconds of the entries from `i` on. -/
def leapsFrom (i : ℕ) : ℕ := (leapSecs.drop i).countP fun e => e.f = lsLs

/-- An entry has a first of January or July, and the clock value is that of the
date: all days and all leap seconds until then. -/
theorem leapSec_entry : ∀ i < 26, ((leapSec i).m = 1 ∨ (leapSec i).m = 7) ∧
    (leapSec i).tod + daysBefore 1900 1 * clkDay
      = daysBefore (leapSec i).y (leapSec i).m * clkDay + leapsFrom i * clkSec ∧
    leapsFrom i = leapsFrom (i + 1) + (if (leapSec i).f = lsLs then 1 else 0) ∧
    (leapSec i).tod + clkSec < 2 ^ 64 ∧ ((leapSec i).tod < clkSec → (leapSec i).f ≠ lsLs) := by
  decide +kernel

/-- The entries are in descending order, more than a day apart. -/
theorem leapSec_order : ∀ k < 26, ∀ i < k, (leapSec k).tod + clkDay ≤ (leapSec i).tod ∧
    12 * (leapSec k).y + (leapSec k).m < 12 * (leapSec i).y + (leapSec i).m := by
  decide +kernel

/-- The table ends with an entry of TOD 0, which is what stops the search of `parse_tod`. -/
theorem leapSec_last : (leapSec 25).tod = 0 := rfl

/-- The place of the newest entry not after a clock value. -/
theorem leapSecIndex_spec (tod : ℕ) : leapSecIndex tod < 26 ∧
    (leapSec (leapSecIndex tod)).tod ≤ tod ∧ ∀ i < leapSecIndex tod, tod < (leapSec i).tod := by
  have hlen : leapSecs.length = 26 := rfl
  have hlt : leapSecIndex tod < leapSecs.length := by
    refine List.findIdx_lt_length_of_exists ⟨leapSec 25, ?_, ?_⟩
    · exact List.getElem_mem (l := leapSecs) (n := 25) (by decide)
    · rw [leapSec_last]
      exact decide_eq_true (Nat.zero_le _)
  have hget : ∀ i (hi : i < leapSecs.length), leapSec i = leapSecs[i] := by
    intro i hi
    rw [leapSec, List.getD_eq_getElem _ _ hi]
  refine ⟨by omega, ?_, fun i hi => ?_⟩
  · rw [hget _ hlt]
    exact of_decide_eq_true (List.findIdx_getElem (w := hlt))
  · rw [hget i (by omega)]
    have hnot := List.not_of_lt_findIdx hi
    simpa using hnot

/-- The clock value is inside an inserted leap second. -/
def InLeapSecond (tod : ℕ) : Prop :=
  ∃ e ∈ leapSecs, e.f = lsLs ∧ e.tod ≤ tod + clkSec ∧ tod < e.tod

/-- The entries of the table are its 26 rows. -/
theorem mem_leapSecs {e : LeapSecInfo} : e ∈ leapSecs ↔ ∃ k < 26, leapSec k = e := by
  rw [List.mem_iff_getElem]
  constructor
  · rintro ⟨k, hk, rfl⟩
    exact ⟨k, hk, List.getD_eq_getElem _ _ hk⟩
  · rintro ⟨k, hk, rfl⟩
    exact ⟨k, hk, (List.getD_eq_getElem leapSecs _ hk).symm⟩

/-- The newest entry not after a clock value is known from its neighbour. -/
theorem leapSecIndex_eq {t k : ℕ} (hle : (leapSec k).tod ≤ t)
    (hlt : ∀ i < k, t < (leapSec i).tod) : leapSecIndex t = k := by
  obtain ⟨-, hle', hlt'⟩ := leapSecIndex_spec t
  rcases lt_trichotomy (leapSecIndex t) k with h | h | h
  · exact absurd (hlt _ h) (by omega)
  · exact h
  · exact absurd (hlt' k h) (by omega)

/-- Inside a leap second the entry one second ahead is that of the leap second, and
the newest one is the one before it. -/
theorem InLeapSecond.index {t : ℕ} (h : InLeapSecond t) :
    ∃ j, leapSecIndex t = j + 1 ∧ j + 1 < 26 ∧ leapSecIndex ((t + clkSec) % 2 ^ 64) = j ∧
      (leapSec j).f = lsLs ∧ (leapSec j).tod ≤ t + clkSec ∧ t < (leapSec j).tod := by
  obtain ⟨e, he, hf, hle, hlt⟩ := h
  obtain ⟨j, hj, rfl⟩ := mem_leapSecs.1 he
  have hday : clkSec < clkDay := by decide
  obtain ⟨-, -, -, hwrap, hsmall⟩ := leapSec_entry j hj
  have hlast : j ≠ 25 := by
    rintro rfl
    exact absurd hlt (by rw [leapSec_last]; omega)
  have hnext := (leapSec_order (j + 1) (by omega) j (by omega)).1
  refine ⟨j, leapSecIndex_eq (by omega) fun i hi => ?_, by omega, ?_, hf, hle, hlt⟩
  · rcases Nat.lt_succ_iff_lt_or_eq.1 hi with hi | rfl
    · have := (leapSec_order j hj i hi).1
      omega
    · exact hlt
  · rw [Nat.mod_eq_of_lt (by omega)]
    refine leapSecIndex_eq hle fun i hi => ?_
    have := (leapSec_order j hj i hi).1
    omega

/-- **`parse_tod` knows a leap second.** -/
theorem inLeapSecond_iff {t : ℕ} (ht : t < 2 ^ 64) :
    (leapSecIndex t ≠ leapSecIndex ((t + clkSec) % 2 ^ 64) ∧
      (leapSec (leapSecIndex ((t + clkSec) % 2 ^ 64))).f = lsLs) ↔ InLeapSecond t := by
  constructor
  · rintro ⟨hne, hf⟩
    obtain ⟨hi, hile, hilt⟩ := leapSecIndex_spec t
    obtain ⟨hj, hjle, hjlt⟩ := leapSecIndex_spec ((t + clkSec) % 2 ^ 64)
    generalize leapSecIndex t = i at *
    generalize leapSecIndex ((t + clkSec) % 2 ^ 64) = j at *
    have hsec : clkSec < 2 ^ 64 := by decide
    rcases Nat.lt_or_ge (t + clkSec) (2 ^ 64) with hwrap | hwrap
    · rw [Nat.mod_eq_of_lt hwrap] at hjle hjlt
      refine ⟨leapSec j, mem_leapSecs.2 ⟨j, hj, rfl⟩, hf, hjle, ?_⟩
      by_contra hge
      rcases lt_trichotomy i j with h | h | h
      · exact absurd (hjlt i h) (by omega)
      · exact hne h
      · exact absurd (hilt j h) hge
    · -- one second ahead is at the beginning of the epoch, which is no leap second
      have hmod : (t + clkSec) % 2 ^ 64 < clkSec := by omega
      exact absurd hf ((leapSec_entry j hj).2.2.2.2 (by omega))
  · intro h
    obtain ⟨j, hi, -, hj, hf, -⟩ := h.index
    rw [hi, hj]
    exact ⟨by omega, hf⟩

/-! ### Readings -/

/-- The leap seconds inserted before a month. -/
def leapCount (y m : ℕ) : ℕ :=
  leapSecs.countP fun e => e.f = lsLs && 12 * e.y + e.m ≤ 12 * y + m

/-- The microseconds from the year 0 on, leap seconds of the table included. -/
def Datetime.micros (dt : Datetime) : ℕ :=
  (dayNumber dt.dy dt.dm dt.dd * 86400 + dt.th * 3600 + dt.tm * 60 + dt.ts
    + leapCount dt.dy dt.dm) * 10 ^ 6 + dt.tmicro

/-- **The UTC reading of a clock value.** The date is one of the calendar, the time one of a
day, the second 60 only in a leap second, and the microseconds since 1900 are those of the
clock, leap seconds apart. -/
structure UtcReading (tod : ℕ) (dt : Datetime) : Prop where
  date : ValidDate dt.dy dt.dm dt.dd
  hour : dt.th < 24
  minute : dt.tm < 60
  second : dt.ts < 60 ∨ dt.ts = 60
  micro : dt.tmicro < 10 ^ 6
  leap : dt.ts = 60 ↔ InLeapSecond tod
  tod : dt.micros = dayNumber 1900 1 1 * 86400 * 10 ^ 6 + tod / 4096

/-- **No month takes a leap second back.** The count of leap seconds behind a month only grows
with the month. -/
theorem leapCount_mono {y m y' m' : ℕ} (h : 12 * y + m ≤ 12 * y' + m') :
    leapCount y m ≤ leapCount y' m' := by
  refine List.countP_mono_left fun e _ he => ?_
  simp only [Bool.and_eq_true, decide_eq_true_eq] at he ⊢
  exact ⟨he.1, he.2.trans h⟩

/-- The date of an entry. -/
theorem leapSec_date {i : ℕ} (hi : i < 26) : ValidDate (leapSec i).y (leapSec i).m 1 ∧
    dayNumber (leapSec i).y (leapSec i).m 1 = daysBefore (leapSec i).y (leapSec i).m := by
  refine ⟨?_, rfl⟩
  rcases (leapSec_entry i hi).1 with h | h
  · rw [h]
    exact ⟨le_rfl, by decide, le_rfl, show 1 ≤ 31 by decide⟩
  · rw [h]
    exact ⟨by decide, by decide, le_rfl, show 1 ≤ 31 by decide⟩

/-- Between two entries of the table the leap seconds are those of the older ones. -/
theorem leapCount_eq {i y m d : ℕ} (hi : i < 26) (hdate : ValidDate y m d)
    (hle : daysBefore (leapSec i).y (leapSec i).m ≤ dayNumber y m d)
    (hlt : 0 < i → dayNumber y m d < daysBefore (leapSec (i - 1)).y (leapSec (i - 1)).m) :
    leapCount y m = leapsFrom i := by
  have holder : ∀ e ∈ leapSecs.drop i, 12 * e.y + e.m ≤ 12 * y + m := by
    intro e he
    obtain ⟨n, hn, rfl⟩ := List.mem_iff_getElem.1 he
    have hlen : leapSecs.length = 26 := rfl
    rw [List.length_drop] at hn
    rw [List.getElem_drop, ← List.getD_eq_getElem _ default]
    show 12 * (leapSec (i + n)).y + (leapSec (i + n)).m ≤ _
    have hmonth := month_le_of_dayNumber_le (leapSec_date hi).1 hdate hle
    rcases Nat.eq_zero_or_pos n with rfl | hpos
    · exact hmonth
    · have := (leapSec_order (i + n) (by omega) i (by omega)).2
      omega
  have hnewer : ∀ e ∈ leapSecs.take i, ¬ 12 * e.y + e.m ≤ 12 * y + m := by
    intro e he hmonth
    obtain ⟨n, hn, rfl⟩ := List.mem_iff_getElem.1 he
    have hlen : leapSecs.length = 26 := rfl
    rw [List.length_take] at hn
    rw [List.getElem_take, ← List.getD_eq_getElem _ default] at hmonth
    change 12 * (leapSec n).y + (leapSec n).m ≤ _ at hmonth
    have hentry := month_le_of_dayNumber_le hdate (leapSec_date (show i - 1 < 26 by omega)).1
      (hlt (by omega)).le
    have horder : 12 * (leapSec (i - 1)).y + (leapSec (i - 1)).m
        ≤ 12 * (leapSec n).y + (leapSec n).m := by
      rcases Nat.lt_or_ge n (i - 1) with h | h
      · exact (leapSec_order (i - 1) (by omega) n h).2.le
      · rw [show n = i - 1 by omega]
    -- the date is in the month of the entry `i - 1`, which begins with the entry
    obtain ⟨hvalid, -⟩ := leapSec_date (show i - 1 < 26 by omega)
    have h₁ := hvalid.month_pos
    have h₂ := hvalid.month_le
    have h₁' := hdate.month_pos
    have h₂' := hdate.month_le
    have hlt := hlt (by omega)
    rw [show y = (leapSec (i - 1)).y by omega, show m = (leapSec (i - 1)).m by omega] at hlt
    unfold dayNumber daysBefore at hlt
    omega
  unfold leapCount leapsFrom
  rw [← List.take_append_drop i leapSecs, List.countP_append,
    List.countP_eq_zero.2 fun e he => by simp [hnewer e he], Nat.zero_add,
    List.take_append_drop]
  exact List.countP_congr fun e he => by simp [holder e he]

/-- The clock value, from the entry the code chooses on: `r` units that are no
leap second, in the time until the next entry. -/
theorem leapSec_reduce {t : ℕ} {a : ℕ} (ha : a ≤ 1) (hleap : a = 1 ↔ InLeapSecond t) :
    ∃ r, t = (leapSec (leapSecIndex t)).tod + r + a * clkSec ∧
      (0 < leapSecIndex t →
        daysBefore (leapSec (leapSecIndex t)).y (leapSec (leapSecIndex t)).m * clkDay + r
          < daysBefore (leapSec (leapSecIndex t - 1)).y (leapSec (leapSecIndex t - 1)).m
              * clkDay) ∧
      (a = 1 → clkDay - clkSec ≤ r % clkDay) := by
  have hsec : clkSec = 4096000000 := rfl
  have hday : clkDay = 353894400000000 := rfl
  obtain ⟨hi, hile, hilt⟩ := leapSecIndex_spec t
  by_cases h : InLeapSecond t
  · obtain rfl : a = 1 := hleap.2 h
    obtain ⟨j, hij, hj, -, hf, hle, hlt⟩ := h.index
    obtain ⟨-, htodj, hcount, -⟩ := leapSec_entry j (by omega)
    obtain ⟨-, htod, -⟩ := leapSec_entry (j + 1) hj
    have horder := (leapSec_order (j + 1) hj j (by omega)).1
    rw [hij, Nat.add_sub_cancel]
    rw [if_pos hf] at hcount
    rw [hcount] at htodj
    rw [hsec] at *
    rw [hday] at *
    obtain ⟨r, hr⟩ := Nat.exists_eq_add_of_le
      (show (leapSec (j + 1)).tod + 4096000000 ≤ t by omega)
    refine ⟨r, ?_, fun _ => by omega, fun _ => by omega⟩
    rw [Nat.one_mul, Nat.add_right_comm]
    exact hr
  · obtain ⟨-, htod, -⟩ := leapSec_entry _ hi
    have ha : a = 0 := by
      have := mt hleap.1 h
      omega
    subst ha
    refine ⟨t - (leapSec (leapSecIndex t)).tod, by omega, fun hpos => ?_, by omega⟩
    obtain ⟨-, htodj, hcount, -⟩ := leapSec_entry (leapSecIndex t - 1) (by omega)
    rw [Nat.sub_add_cancel hpos] at hcount
    have hlt := hilt (leapSecIndex t - 1) (by omega)
    by_cases hf : (leapSec (leapSecIndex t - 1)).f = lsLs
    · rw [if_pos hf] at hcount
      have hsmall : t + clkSec < (leapSec (leapSecIndex t - 1)).tod := by
        by_contra hge
        exact h ⟨_, mem_leapSecs.2 ⟨_, by omega, rfl⟩, hf, by omega, hlt⟩
      rw [hcount, Nat.add_mul] at htodj
      omega
    · rw [if_neg hf] at hcount
      rw [hcount, Nat.add_zero] at htodj
      omega

/-- **A clock value has one reading.** -/
theorem UtcReading.unique {tod : ℕ} {dt dt' : Datetime} (h : UtcReading tod dt)
    (h' : UtcReading tod dt') : dt = dt' := by
  have hleap := h.leap.trans h'.leap.symm
  have hmicros := h.tod.trans h'.tod.symm
  have hmicro := h.micro
  have hmicro' := h'.micro
  have hhour := h.hour
  have hhour' := h'.hour
  have hminute := h.minute
  have hminute' := h'.minute
  have hsecond := h.second
  have hsecond' := h'.second
  -- a later day would have at least as many leap seconds before it
  have hday : dayNumber dt.dy dt.dm dt.dd = dayNumber dt'.dy dt'.dm dt'.dd := by
    unfold Datetime.micros at hmicros
    rcases lt_trichotomy (dayNumber dt.dy dt.dm dt.dd) (dayNumber dt'.dy dt'.dm dt'.dd)
      with hlt | heq | hgt
    · have := leapCount_mono (month_le_of_dayNumber_le h.date h'.date hlt.le)
      omega
    · exact heq
    · have := leapCount_mono (month_le_of_dayNumber_le h'.date h.date hgt.le)
      omega
  obtain ⟨hy, hm, hd⟩ := dayNumber_inj h.date h'.date hday
  unfold Datetime.micros at hmicros
  rw [hy, hm, hd] at hmicros
  cases dt
  cases dt'
  simp only [Datetime.mk.injEq] at *
  exact ⟨hy, hm, hd, by omega, by omega, by omega, by omega⟩

/-- The clock value without the leap seconds, from the entry on. -/
theorem sub64_entry {t T r a : ℕ} (ht : t < 2 ^ 64) (hr : t = T + r + a * clkSec) (ha : a ≤ 1) :
    (if a = 1 then sub64 (sub64 t T) clkSec else sub64 t T) = r := by
  rw [sub64_of_le (by omega) ht]
  by_cases h : a = 1
  · subst h
    rw [if_pos rfl, sub64_of_le (by omega) (by omega)]
    omega
  · obtain rfl : a = 0 := by omega
    rw [if_neg h]
    omega

/-- The units of a clock value, counted as microseconds. -/
theorem micros_eq {T epoch entry day part leaps a r t th tm ts tmicro : ℕ}
    (hentry : T + epoch * clkDay = entry * clkDay + leaps * clkSec)
    (htotal : day * clkDay + part = entry * clkDay + r) (hr : t = T + r + a * clkSec)
    (hparts : (th * 3600 + tm * 60 + ts) * 10 ^ 6 + tmicro = part / 4096) :
    (day * 86400 + th * 3600 + tm * 60 + (ts + a) + leaps) * 10 ^ 6 + tmicro
      = epoch * 86400 * 10 ^ 6 + t / 4096 := by
  have hsec : clkSec = 4096000000 := rfl
  have hday : clkDay = 353894400000000 := rfl
  have hunits : t + 4096 * (epoch * 86400000000)
      = part + 4096 * (day * 86400000000 + (leaps + a) * 1000000) := by
    rw [hday] at hentry htotal
    rw [hsec] at hentry hr
    linarith
  have hmicros := congrArg (· / 4096) hunits
  simp only [Nat.add_mul_div_left _ _ (show 0 < 4096 by decide)] at hmicros
  linarith

/-- **`parse_tod`** ends with the reading. -/
theorem parseTod_spec (tod : UInt64) {fuel : ℕ} (hfuel : 200 ≤ fuel) :
    ∃ dt, parseTod fuel tod = some dt ∧ UtcReading tod.toNat dt := by
  have ht : tod.toNat < 2 ^ 64 := tod.toNat_lt
  have hsec : clkSec = 4096000000 := rfl
  have hday : clkDay = 353894400000000 := rfl
  have hyear : clkYear = 129171456000000000 := rfl
  unfold parseTod
  generalize tod.toNat = t at *
  obtain ⟨a, ha, hleap, hcond⟩ : ∃ a ≤ 1, (a = 1 ↔ InLeapSecond t) ∧
      ((leapSecIndex t ≠ leapSecIndex ((t + clkSec) % 2 ^ 64) ∧
        (leapSec (leapSecIndex ((t + clkSec) % 2 ^ 64))).f = lsLs) ↔ a = 1) := by
    by_cases h : InLeapSecond t
    · exact ⟨1, le_rfl, by simp [h], by simpa [h] using (inLeapSecond_iff ht).2 h⟩
    · exact ⟨0, by decide, by simp [h], by simpa [h] using mt (inLeapSecond_iff ht).1 h⟩
  obtain ⟨hi, -⟩ := leapSecIndex_spec t
  obtain ⟨hmonth, hentry, -⟩ := leapSec_entry _ hi
  obtain ⟨r, hr, hnext, hlast⟩ := leapSec_reduce ha hleap
  simp only [hcond, sub64_entry ht hr ha]
  generalize leapSecIndex t = i at *
  rw [if_neg (show ¬ ((leapSec i).m ≠ 1 ∧ (leapSec i).m ≠ 7) from
    fun h => hmonth.elim h.1 h.2)]
  have hr64 : r < 2 ^ 64 := by omega
  have hyears : r < fuel * clkYear := by
    have := Nat.mul_le_mul_right clkYear hfuel
    omega
  obtain ⟨dy, rest, hyears, hrest, htime⟩ := @yearLoop_spec _ hmonth fuel (leapSec i).y r hr64
    hyears
  have hpos : 1 ≤ (leapSec i).m := by omega
  have h12 : (leapSec i).m ≤ 12 := by omega
  obtain ⟨dy', dm, dd, hmonths, hvalid, hnumber⟩ := @monthLoop_spec fuel dy (leapSec i).m
    (rest / clkDay) hpos h12 (by rw [hday] at hrest ⊢; omega)
  have hmod : sub64 rest (rest / clkDay * clkDay) = rest % clkDay := by
    rw [sub64_of_le (Nat.div_mul_le_self _ _) (by omega), Nat.mod_eq_sub_div_mul]
  obtain ⟨th, tm, ts, tmicro, htime', hhour, hminute, hsecond, hmicro, hparts, h59⟩ :=
    parseTime_spec dy' dm (dd + 1) (if a = 1 then 1 else 0)
      (Nat.mod_lt rest (show 0 < clkDay by decide))
  refine ⟨⟨dy', dm, dd + 1, th, tm, ts + (if a = 1 then 1 else 0), tmicro⟩, ?_, ?_⟩
  · rw [hyears, Option.bind_eq_bind, Option.bind_some, hmod, hmonths, ← htime']
    rfl
  · have htotal : dayNumber dy' dm (dd + 1) * clkDay + rest % clkDay
        = daysBefore (leapSec i).y (leapSec i).m * clkDay + r := by
      rw [hnumber, Nat.add_mul, Nat.add_assoc, Nat.div_add_mod' rest clkDay, htime]
    have hmodr : rest % clkDay = r % clkDay := by
      have := congrArg (· % clkDay) htotal
      simpa [Nat.add_mod, Nat.mul_mod_left] using this
    have hcount : leapCount dy' dm = leapsFrom i := by
      refine leapCount_eq hi hvalid ?_ fun hpos => ?_
      · rw [hday] at htotal
        omega
      · have := hnext hpos
        rw [hday] at htotal this
        omega
    have hsixty : ts + (if a = 1 then 1 else 0) = 60 ↔ a = 1 := by
      by_cases h : a = 1
      · have := h59 (by rw [hmodr]; exact hlast h)
        rw [if_pos h]
        omega
      · rw [if_neg h]
        omega
    refine ⟨hvalid, hhour, hminute, ?_, hmicro, hsixty.trans hleap, ?_⟩
    · by_cases h : a = 1
      · exact Or.inr (hsixty.2 h)
      · exact Or.inl (by rw [if_neg h]; exact hsecond)
    · have hadd : (if a = 1 then 1 else 0) = a := by
        by_cases h : a = 1
        · rw [if_pos h, h]
        · rw [if_neg h]
          omega
      show (dayNumber dy' dm (dd + 1) * 86400 + th * 3600 + tm * 60 + (ts + _) + leapCount dy' dm)
        * 10 ^ 6 + tmicro = daysBefore 1900 1 * 86400 * 10 ^ 6 + t / 4096
      rw [hcount, hadd]
      exact micros_eq hentry htotal hr hparts

/-- **Every clock value has one reading, and `parse_tod` finds it:** for each of the 2⁶⁴
values the date, the time of day, the microsecond and whether it is in a leap second are
those of the calendar, the search for the year ends within the fuel given, and no other
reading has the value. -/
theorem parseTod_reading (tod : UInt64) :
    ∃ dt, UtcReading tod.toNat dt ∧ (∀ dt', UtcReading tod.toNat dt' → dt' = dt) ∧
      ∀ fuel ≥ 200, parseTod fuel tod = some dt := by
  obtain ⟨dt, hparse, hreading⟩ := parseTod_spec tod (le_refl 200)
  refine ⟨dt, hreading, fun dt' h => h.unique hreading, fun fuel hfuel => ?_⟩
  obtain ⟨dt', hparse', hreading'⟩ := parseTod_spec tod hfuel
  rw [hparse', hreading'.unique hreading]

example : parseTod 200 0xC3870CB9BB5FFFFF = some ⟨2008, 12, 31, 23, 59, 60, 999999⟩ := by
  decide +kernel

end Hvf
