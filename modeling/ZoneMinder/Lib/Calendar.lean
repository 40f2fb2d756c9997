import Mathlib.Algebra.Ring.Nat
import Mathlib.Data.Prod.Lex
import Mathlib.Order.Cover
import Mathlib.Tactic.IntervalCases

namespace Lib

def isLeap (year : ℕ) : Bool := year % 4 = 0 && (year % 100 ≠ 0 || year % 400 = 0)

def monthDays (year month : ℕ) : ℕ :=
  if month = 2 then if isLeap year then 29 else 28
  else if month = 4 ∨ month = 6 ∨ month = 9 ∨ month = 11 then 30
  else 31

theorem one_le_monthDays (year month : ℕ) : 1 ≤ monthDays year month := by
  rw [monthDays]
  split_ifs <;> omega

theorem monthDays_le (year month : ℕ) : monthDays year month ≤ 31 := by
  rw [monthDays]
  split_ifs <;> omega

/-- A date of the years that are written with four digits. -/
@[ext]
structure Date where
  year : ℕ
  month : ℕ
  day : ℕ
  year_low : 1000 ≤ year
  year_high : year ≤ 9999
  month_low : 1 ≤ month
  month_high : month ≤ 12
  day_low : 1 ≤ day
  day_high : day ≤ monthDays year month
  deriving DecidableEq

namespace Date

variable {d d' : Date}

/-- Dates are compared as the numbers they are kept as. -/
def packed (d : Date) : ℕ := (d.year * 13 + d.month) * 32 + d.day

theorem day_le (d : Date) : d.day ≤ 31 := d.day_high.trans (monthDays_le _ _)

theorem packed_injective : Function.Injective packed := by
  intro d d' h
  have hday := d.day_le
  have hday' := d'.day_le
  have hmonth := d.month_high
  have hmonth' := d'.month_high
  simp only [packed] at h
  ext <;> omega

instance : LinearOrder Date := LinearOrder.lift' packed packed_injective

theorem lt_iff_packed : d < d' ↔ d.packed < d'.packed := Iff.rfl

theorem le_iff_packed : d ≤ d' ↔ d.packed ≤ d'.packed := Iff.rfl

def next (d : Date) : Option Date :=
  if hday : d.day < monthDays d.year d.month then
    some { d with day := d.day + 1, day_low := by omega, day_high := hday }
  else if hmonth : d.month < 12 then
    some { d with
      month := d.month + 1
      day := 1
      month_low := by omega
      month_high := hmonth
      day_low := le_rfl
      day_high := one_le_monthDays _ _ }
  else if hyear : d.year < 9999 then
    some { d with
      year := d.year + 1
      month := 1
      day := 1
      year_low := by have := d.year_low; omega
      year_high := hyear
      month_low := le_rfl
      month_high := by omega
      day_low := le_rfl
      day_high := one_le_monthDays _ _ }
  else none

theorem next_cases (d : Date) :
    (∃ d', d.next = some d' ∧ d'.year = d.year ∧ d'.month = d.month ∧ d'.day = d.day + 1) ∨
    (∃ d', d.next = some d' ∧ d'.year = d.year ∧ d'.month = d.month + 1 ∧ d'.day = 1 ∧
      d.day = monthDays d.year d.month) ∨
    (∃ d', d.next = some d' ∧ d'.year = d.year + 1 ∧ d'.month = 1 ∧ d'.day = 1 ∧ d.month = 12 ∧
      d.day = monthDays d.year d.month) ∨
    d.next = none ∧ d.year = 9999 ∧ d.month = 12 ∧ d.day = monthDays d.year d.month := by
  have hhigh := d.day_high
  have hmonth := d.month_high
  have hyear := d.year_high
  rw [next]
  split_ifs with hday hmonth' hyear'
  · exact .inl ⟨_, rfl, rfl, rfl, rfl⟩
  · exact .inr (.inl ⟨_, rfl, rfl, rfl, rfl, by omega⟩)
  · exact .inr (.inr (.inl ⟨_, rfl, rfl, rfl, rfl, by omega, by omega⟩))
  · exact .inr (.inr (.inr ⟨rfl, by omega, by omega, by omega⟩))

/-- There is no date between. -/
theorem covBy_next (h : d.next = some d') : d ⋖ d' := by
  have hmonth := d.month_high
  have hlast := d.day_le
  rcases d.next_cases with ⟨e, he, hstep⟩ | ⟨e, he, hstep⟩ | ⟨e, he, hstep⟩ | ⟨he, -⟩
  all_goals
    rw [h] at he
    first
    | cases he
      done
    | obtain rfl := Option.some.inj he
      refine ⟨by simp only [lt_iff_packed, packed]; omega, ?_⟩
      intro c hc hc'
      have hday := c.day_high
      have hdayLow := c.day_low
      have hday' := c.day_le
      have hcmonth := c.month_high
      have hcmonthLow := c.month_low
      simp only [lt_iff_packed, packed] at hc hc'
      by_cases hsame : c.year = d.year ∧ c.month = d.month
      · rw [hsame.1, hsame.2] at hday
        omega
      · omega

theorem le_of_next (h : d.next = none) (d' : Date) : d' ≤ d := by
  rcases d.next_cases with ⟨e, he, -⟩ | ⟨e, he, -⟩ | ⟨e, he, -⟩ | ⟨-, hyear, hmonth, hday⟩
  · rw [h] at he
    cases he
  · rw [h] at he
    cases he
  · rw [h] at he
    cases he
  · have hyear' := d'.year_high
    have hmonth' := d'.month_high
    have hday' := d'.day_le
    have hlast : monthDays 9999 12 = 31 := rfl
    rw [hyear, hmonth, hlast] at hday
    simp only [le_iff_packed, packed, hday, hyear, hmonth]
    omega

/-- The number of a day as the database counts. -/
def dayNumber (d : Date) : ℕ :=
  if d.month ≤ 2 then
    365 * d.year + 31 * (d.month - 1) + d.day + (d.year - 1) / 4 - ((d.year - 1) / 100 + 1) * 3 / 4
  else
    365 * d.year + 31 * (d.month - 1) + d.day - (d.month * 4 + 23) / 10 + d.year / 4 -
      (d.year / 100 + 1) * 3 / 4

/-- The number of the day before a month. -/
def monthStart (year month : ℕ) : ℕ :=
  if month ≤ 2 then 365 * year + 31 * (month - 1) + (year - 1) / 4 - ((year - 1) / 100 + 1) * 3 / 4
  else
    365 * year + 31 * (month - 1) - (month * 4 + 23) / 10 + year / 4 - (year / 100 + 1) * 3 / 4

theorem dayNumber_eq (d : Date) : d.dayNumber = monthStart d.year d.month + d.day := by
  have hyear := d.year_low
  have hmonth := d.month_high
  rw [dayNumber, monthStart]
  split_ifs <;> omega

theorem monthStart_succ {year month : ℕ} (hyear : 1000 ≤ year) (hlow : 1 ≤ month)
    (hhigh : month < 12) :
    monthStart year (month + 1) = monthStart year month + monthDays year month := by
  simp only [monthStart, monthDays, isLeap, Bool.and_eq_true, Bool.or_eq_true, decide_eq_true_eq]
  interval_cases month <;> simp
  case «2» =>
    have hcentury : (year - 1) / 100 = if year % 100 = 0 then year / 100 - 1 else year / 100 := by
      split_ifs <;> omega
    have hfour : year % 400 = 0 ↔ year % 100 = 0 ∧ year / 100 % 4 = 0 := by omega
    have hquarter : year / 100 % 4 = 0 ∨ year / 100 % 4 = 1 ∨ year / 100 % 4 = 2 ∨
        year / 100 % 4 = 3 := by omega
    simp only [hcentury, hfour]
    rcases hquarter with hquarter | hquarter | hquarter | hquarter <;> split_ifs <;> omega
  all_goals omega

theorem monthStart_year {year : ℕ} (hyear : 1000 ≤ year) :
    monthStart (year + 1) 1 = monthStart year 12 + 31 := by
  simp only [monthStart]
  simp
  omega

theorem monthStart_mono {year month month' : ℕ} (hyear : 1000 ≤ year) (hlow : 1 ≤ month)
    (h : month ≤ month') (hhigh : month' ≤ 12) : monthStart year month ≤ monthStart year month' := by
  induction month', h using Nat.le_induction with
  | base => exact le_rfl
  | succ month' hle ih =>
    rw [monthStart_succ hyear (hlow.trans hle) hhigh]
    exact (ih (by omega)).trans (Nat.le_add_right _ _)

theorem monthStart_year_mono {year year' : ℕ} (hyear : 1000 ≤ year) (h : year ≤ year') :
    monthStart year 1 ≤ monthStart year' 1 := by
  induction year', h using Nat.le_induction with
  | base => exact le_rfl
  | succ year' hle ih =>
    have hyear' : 1000 ≤ year' := hyear.trans hle
    rw [monthStart_year hyear']
    exact (ih.trans (monthStart_mono hyear' le_rfl (by omega) le_rfl)).trans (Nat.le_add_right _ _)

theorem monthStart_lt_dayNumber (d : Date) : monthStart d.year 1 < d.dayNumber := by
  have hday := d.day_low
  have hstart := monthStart_mono d.year_low le_rfl d.month_low d.month_high
  rw [dayNumber_eq]
  omega

theorem dayNumber_le_yearEnd (d : Date) : d.dayNumber ≤ monthStart (d.year + 1) 1 := by
  have hday := d.day_high
  rw [dayNumber_eq, monthStart_year d.year_low]
  by_cases hmonth : d.month = 12
  · have hlast := d.day_le
    rw [hmonth]
    omega
  · have hlt : d.month < 12 := lt_of_le_of_ne d.month_high hmonth
    have hsucc := monthStart_succ d.year_low d.month_low hlt
    have hstart := monthStart_mono d.year_low (Nat.le_add_left 1 d.month) hlt le_rfl
    omega

theorem dayNumber_strictMono : StrictMono dayNumber := by
  intro d d' h
  have hday := d.day_high
  have hlast := d.day_le
  have hlast' := d'.day_le
  have hmonth := d.month_high
  have hmonth' := d'.month_high
  rw [lt_iff_packed, packed, packed] at h
  rcases lt_trichotomy d.year d'.year with hyear | hyear | hyear
  · exact ((dayNumber_le_yearEnd d).trans
      (monthStart_year_mono (by have := d.year_low; omega) hyear)).trans_lt
        (monthStart_lt_dayNumber d')
  · rcases lt_trichotomy d.month d'.month with hlt | heq | hgt
    · have hfirst := d'.day_low
      have hsucc := monthStart_succ d.year_low d.month_low (hlt.trans_le hmonth')
      have hstart := monthStart_mono d.year_low (Nat.le_add_left 1 d.month) hlt hmonth'
      rw [dayNumber_eq, dayNumber_eq, ← hyear]
      omega
    · rw [dayNumber_eq, dayNumber_eq, hyear, heq]
      omega
    · omega
  · omega

/-- A date as it is written. -/
def text (d : Date) : List Char :=
  [Nat.digitChar (d.year / 1000), Nat.digitChar (d.year / 100 % 10), Nat.digitChar (d.year / 10 % 10),
    Nat.digitChar (d.year % 10), '-', Nat.digitChar (d.month / 10), Nat.digitChar (d.month % 10), '-',
    Nat.digitChar (d.day / 10), Nat.digitChar (d.day % 10)]

end Date

/-- A date with the seconds that have passed of it. -/
abbrev Instant := Date ×ₗ ℕ

namespace Instant

def date (i : Instant) : Date := (ofLex i).1

def seconds (i : Instant) : ℕ := (ofLex i).2

def midnight (d : Date) : Instant := toLex (d, 0)

/-- A day later, within the calendar. -/
def tomorrow (i : Instant) : Option Instant := i.date.next.map (fun d ↦ toLex (d, i.seconds))

variable {d d' : Date} {i : Instant}

theorem date_midnight : (midnight d).date = d := rfl

theorem midnight_le : midnight d ≤ i ↔ d ≤ i.date := by
  rw [midnight, Prod.Lex.le_iff]
  constructor
  · rintro (h | ⟨h, -⟩)
    · exact h.le
    · exact h.le
  · intro h
    rcases h.lt_or_eq with h | h
    · exact .inl h
    · exact .inr ⟨h, Nat.zero_le _⟩

theorem lt_midnight : i < midnight d ↔ i.date < d := by
  rw [← not_le, midnight_le, not_le]

/-- Before the next day is up to this one. -/
theorem lt_midnight_next (h : d.next = some d') : i < midnight d' ↔ i.date ≤ d := by
  rw [lt_midnight]
  constructor
  · intro hlt
    exact not_lt.mp fun hd ↦ (Date.covBy_next h).2 hd hlt
  · intro hle
    exact hle.trans_lt (Date.covBy_next h).1

end Instant

def digitValue (c : Char) : Option ℕ := if c.isDigit then some (c.toNat - 48) else none

def readNumber (cs : List Char) : Option ℕ :=
  cs.foldlM (fun n c ↦ (digitValue c).map (fun d ↦ 10 * n + d)) 0

def readDate (year month day : ℕ) : Option Date :=
  if h : (1000 ≤ year ∧ year ≤ 9999) ∧ (1 ≤ month ∧ month ≤ 12) ∧ 1 ≤ day ∧
      day ≤ monthDays year month then
    some ⟨year, month, day, h.1.1, h.1.2, h.2.1.1, h.2.1.2, h.2.2.1, h.2.2.2⟩
  else none

/-- A date and time as the database reads it. -/
def readInstant : List Char → Option Instant
  | [y1, y2, y3, y4, '-', m1, m2, '-', d1, d2, ' ', h1, h2, ':', i1, i2, ':', s1, s2] => do
    let date ← readDate (← readNumber [y1, y2, y3, y4]) (← readNumber [m1, m2])
      (← readNumber [d1, d2])
    let hours ← readNumber [h1, h2]
    let minutes ← readNumber [i1, i2]
    let seconds ← readNumber [s1, s2]
    if hours < 24 ∧ minutes < 60 ∧ seconds < 60 then
      some (toLex (date, (hours * 60 + minutes) * 60 + seconds))
    else none
  | _ => none

theorem digitValue_digitChar {n : ℕ} (h : n < 10) :
    digitValue (Nat.digitChar n) = some n ∧ (Nat.digitChar n).isDigit ∧ Nat.digitChar n ≠ '-' := by
  interval_cases n <;> decide

/-- A date is written with dashes between its digits. -/
theorem Date.text_digits (d : Date) :
    (d.text.filter (fun c ↦ c ≠ '-')).length = 8 ∧
      ∀ c ∈ d.text.filter (fun c ↦ c ≠ '-'), c.isDigit := by
  have hyear := d.year_high
  have hmonth := d.month_high
  have hday := d.day_le
  have hdigit (n : ℕ) (h : n < 10) := (digitValue_digitChar h).2
  have h1 := hdigit (d.year / 1000) (by omega)
  have h2 := hdigit (d.year / 100 % 10) (by omega)
  have h3 := hdigit (d.year / 10 % 10) (by omega)
  have h4 := hdigit (d.year % 10) (by omega)
  have h5 := hdigit (d.month / 10) (by omega)
  have h6 := hdigit (d.month % 10) (by omega)
  have h7 := hdigit (d.day / 10) (by omega)
  have h8 := hdigit (d.day % 10) (by omega)
  simp [Date.text, h1, h2, h3, h4, h5, h6, h7, h8]

theorem readDate_eq (d : Date) : readDate d.year d.month d.day = some d := by
  rw [readDate, dif_pos ⟨⟨d.year_low, d.year_high⟩, ⟨d.month_low, d.month_high⟩, d.day_low, d.day_high⟩]

theorem readInstant_midnight (d : Date) :
    readInstant (d.text ++ " 00:00:00".toList) = some (Instant.midnight d) := by
  have hyear := d.year_high
  have hmonth := d.month_high
  have hday := d.day_le
  have hread2 (m n : ℕ) (hm : m < 10) (hn : n < 10) :
      readNumber [Nat.digitChar m, Nat.digitChar n] = some (10 * m + n) := by
    simp [readNumber, (digitValue_digitChar hm).1, (digitValue_digitChar hn).1]
  have hread4 (k l m n : ℕ) (hk : k < 10) (hl : l < 10) (hm : m < 10) (hn : n < 10) :
      readNumber [Nat.digitChar k, Nat.digitChar l, Nat.digitChar m, Nat.digitChar n] =
        some (10 * (10 * (10 * k + l) + m) + n) := by
    simp [readNumber, (digitValue_digitChar hk).1, (digitValue_digitChar hl).1,
      (digitValue_digitChar hm).1, (digitValue_digitChar hn).1]
  have hyearText := hread4 (d.year / 1000) (d.year / 100 % 10) (d.year / 10 % 10) (d.year % 10)
    (by omega) (by omega) (by omega) (by omega)
  have hmonthText := hread2 (d.month / 10) (d.month % 10) (by omega) (by omega)
  have hdayText := hread2 (d.day / 10) (d.day % 10) (by omega) (by omega)
  rw [show 10 * (10 * (10 * (d.year / 1000) + d.year / 100 % 10) + d.year / 10 % 10) + d.year % 10 =
    d.year by omega] at hyearText
  rw [show 10 * (d.month / 10) + d.month % 10 = d.month by omega] at hmonthText
  rw [show 10 * (d.day / 10) + d.day % 10 = d.day by omega] at hdayText
  have hzero : readNumber ['0', '0'] = some 0 := by decide
  have htime : " 00:00:00".toList = [' ', '0', '0', ':', '0', '0', ':', '0', '0'] := by decide
  rw [htime]
  simp only [Date.text, List.cons_append, List.nil_append, readInstant]
  rw [hyearText, hmonthText, hdayText, hzero]
  simp [readDate_eq, Instant.midnight]

/-- The start of the next day as it is written; after the last day come years of five digits. -/
def Date.nextText (d : Date) : List Char :=
  match d.next with
  | some d' => d'.text ++ " 00:00:00".toList
  | none => "10000-01-01 00:00:00".toList

theorem readInstant_nextText (d : Date) : readInstant d.nextText = d.next.map .midnight := by
  rw [Date.nextText]
  cases d.next with
  | some d' => exact readInstant_midnight d'
  | none => decide

end Lib
