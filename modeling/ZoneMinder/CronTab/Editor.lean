import ZoneMinder.CronTab.Grammar
import ZoneMinder.CronTab.Validated

namespace ZoneMinder.CronTab

open Php

/-- The frequencies that the editor offers, with the day of week field of each. -/
def cronFrequencies : List (String × Text) :=
  [("daily", ['*']), ("weekdays", ['1', '-', '5']), ("weekends", ['0', ',', '6']),
    ("sunday", ['0']), ("monday", ['1']), ("tuesday", ['2']), ("wednesday", ['3']),
    ("thursday", ['4']), ("friday", ['5']), ("saturday", ['6']), ("hourly", ['*'])]

/-- The hour and the minute come as texts from a form. -/
def cronFromParts (frequency : String) (hour minute : Text) : Option Text :=
  match cronFrequencies.lookup frequency with
  | none => none
  | some field =>
    if !allDigits minute then none
    else if intval minute < 0 ∨ 59 < intval minute then none
    else if frequency = "hourly" then some (decimal (intval minute) ++ " * * * *".toList)
    else if !allDigits hour then none
    else if intval hour < 0 ∨ 23 < intval hour then none
    else
      some (decimal (intval minute) ++ ' ' :: decimal (intval hour) ++ " * * ".toList ++ field)

structure Parts where
  frequency : String
  hour : ℤ
  minute : ℤ
  deriving DecidableEq

def cronToParts (spec : Text) : Option Parts :=
  if !cronScheduleIsValid spec then none
  else
    match scheduleFields spec with
    | [minute, hour, dom, month, dow] =>
      if dom ≠ ['*'] ∨ month ≠ ['*'] then none
      else if !allDigits minute then none
      else if hour = ['*'] then
        if dow ≠ ['*'] then none else some ⟨"hourly", 0, intval minute⟩
      else if !allDigits hour then none
      else
        -- Sunday has two numbers.
        let dow := if dow = ['7'] then ['0'] else dow
        (cronFrequencies.find? fun (name, field) ↦ name ≠ "hourly" && field = dow).map
          fun (name, _) ↦ ⟨name, intval hour, intval minute⟩
    | _ => none

/-- A minute of some day, as cron tells days apart. -/
structure Moment where
  minute : Fin 60
  hour : Fin 24
  day : ℕ
  month : ℕ
  weekday : Fin 7
  day_mem : day ∈ List.range' 1 31
  month_mem : month ∈ List.range' 1 12

/-- The number that cron reads. -/
def cronNumber (text : Text) : Option ℕ :=
  if text ≠ [] ∧ text.all Char.isDigit then some (Nat.ofDigitChars 10 text 0) else none

/-- The values of an item but for its step: all of the field, one, or those between two. -/
def rangeValues (lo hi : ℕ) (item : Text) : Option (List ℕ) :=
  if item = ['*'] then some (List.range' lo (hi + 1 - lo))
  else
    match item.splitOn '-' with
    | [n] => do
      let n ← cronNumber n
      if lo ≤ n ∧ n ≤ hi then some [n] else none
    | [n, m] => do
      let n ← cronNumber n
      let m ← cronNumber m
      if lo ≤ n ∧ n ≤ m ∧ m ≤ hi then some (List.range' n (m + 1 - n)) else none
    | _ => none

def itemValues (lo hi : ℕ) (item : Text) : Option (List ℕ) :=
  match item.splitOn '/' with
  | [item] => rangeValues lo hi item
  | [item, step] => do
    let values ← rangeValues lo hi item
    let k ← cronNumber step
    if k = 0 then none else some (values.filter fun v ↦ (v - values.headI) % k = 0)
  | _ => none

def fieldValues (lo hi : ℕ) (field : Text) : Option (List ℕ) :=
  ((field.splitOn ',').mapM (itemValues lo hi)).map List.flatten

/-- When an entry fires: `everyDay` where one of the two fields for the day begins with a star. -/
structure Times where
  minutes : List ℕ
  hours : List ℕ
  days : List ℕ
  months : List ℕ
  weekdays : List ℕ
  everyDay : Bool

def cronTimes : List Text → Option Times
  | [minute, hour, day, month, weekday] => do
    let minutes ← fieldValues 0 59 minute
    let hours ← fieldValues 0 23 hour
    let days ← fieldValues 1 31 day
    let months ← fieldValues 1 12 month
    let weekdays ← fieldValues 0 7 weekday
    some ⟨minutes, hours, days, months, weekdays,
      day.head? = some '*' || weekday.head? = some '*'⟩
  | _ => none

/-- The days 0 and 7 are the same. -/
def onWeekday (weekday : Fin 7) (values : List ℕ) : Bool := values.any fun v ↦ v % 7 = weekday.val

/-- Either field for the day is enough where both restrict it. -/
def Times.fires (times : Times) (t : Moment) : Bool :=
  decide (t.minute.val ∈ times.minutes) && decide (t.hour.val ∈ times.hours) &&
    decide (t.month ∈ times.months) &&
      if times.everyDay then decide (t.day ∈ times.days) && onWeekday t.weekday times.weekdays
      else decide (t.day ∈ times.days) || onWeekday t.weekday times.weekdays

/-- When the schedule is to fire that the controls show. -/
def Parts.fires (parts : Parts) (t : Moment) : Bool :=
  (t.minute.val : ℤ) = parts.minute &&
    (parts.frequency = "hourly" ||
      ((t.hour.val : ℤ) = parts.hour &&
        (cronFrequencies.lookup parts.frequency).any fun field ↦
          (fieldValues 0 7 field).any (onWeekday t.weekday)))

/-- An entry with a field that cron cannot read never fires. -/
def firesAt (line : Text) (t : Moment) : Bool :=
  match cronFields 5 line with
  | none => false
  | some (fields, _) => (cronTimes fields).any fun times ↦ times.fires t

/-- Cron fires the two schedules at the same minutes, whatever command stands after them. -/
def SameMinutes (spec spec' : Text) : Prop :=
  ∀ command t, firesAt (trim spec ++ ' ' :: command) t = firesAt (trim spec' ++ ' ' :: command) t

/-- What cron takes for no space stands at most in the spaces at the end, behind one of cron's. -/
inductive Separated : Text → Prop
  | all {text : Text} : (∀ c ∈ text, c ≠ '\x0b' ∧ c ≠ '\x0c') → Separated text
  | tail {text rest : Text} {b : Char} : (∀ c ∈ text, c ≠ '\x0b' ∧ c ≠ '\x0c') →
      cronSpace b = true → (∀ c ∈ rest, space c = true) → Separated (text ++ b :: rest)

section Values

variable {text item field : Text} {lo hi n : ℕ} {values : List ℕ}

theorem cronNumber_of_number (h : Number text n) : cronNumber text = some n := by
  rw [cronNumber, if_pos ⟨h.ne_nil, List.all_eq_true.mpr h.digits⟩, h.value]

theorem fieldValues_of_number (h : Number text n) (hlo : lo ≤ n) (hhi : n ≤ hi) :
    fieldValues lo hi text = some [n] := by
  have hstar : text ≠ ['*'] := by
    rintro rfl
    exact h.notMem (c := '*') rfl (by simp)
  have hrange : rangeValues lo hi text = some [n] := by
    rw [rangeValues, if_neg hstar, List.splitOn_eq_singleton (h.notMem rfl)]
    simp [cronNumber_of_number h, hlo, hhi]
  have hitem : itemValues lo hi text = some [n] := by
    rw [itemValues, List.splitOn_eq_singleton (h.notMem rfl)]
    exact hrange
  rw [fieldValues, List.splitOn_eq_singleton (h.notMem rfl)]
  simp [hitem]

/-- What may stand in a field. -/
def Readable (c : Char) : Prop := c.isDigit = true ∨ c ∈ ['*', '-', '/', ',']

theorem readable_of_cronNumber (h : cronNumber text = some n) : ∀ c ∈ text, Readable c := by
  obtain ⟨⟨-, hdigits⟩, -⟩ := Option.ite_none_right_eq_some.mp h
  exact fun c hc ↦ .inl (List.all_eq_true.mp hdigits c hc)

/-- A text is readable where its pieces are and what separates them is. -/
theorem readable_of_splitOn {a : Char} (ha : Readable a)
    (h : ∀ w ∈ text.splitOn a, ∀ c ∈ w, Readable c) : ∀ c ∈ text, Readable c := by
  intro c hc
  rcases Lib.mem_splitOn a hc with rfl | ⟨w, hw, hcw⟩
  · exact ha
  · exact h w hw c hcw

theorem readable_of_rangeValues (h : rangeValues lo hi item = some values) :
    ∀ c ∈ item, Readable c := by
  rw [rangeValues] at h
  split at h
  case isTrue hstar =>
    intro c hc
    rw [hstar, List.mem_singleton] at hc
    exact .inr (by simp [hc])
  case isFalse =>
    refine readable_of_splitOn (a := '-') (.inr (by simp)) ?_
    split at h
    case h_1 first hsplit =>
      obtain ⟨n, hn, -⟩ := Option.bind_eq_some_iff.mp h
      rw [hsplit]
      simpa using readable_of_cronNumber hn
    case h_2 first last hsplit =>
      obtain ⟨n, hn, h⟩ := Option.bind_eq_some_iff.mp h
      obtain ⟨m, hm, -⟩ := Option.bind_eq_some_iff.mp h
      rw [hsplit]
      simpa using ⟨readable_of_cronNumber hn, readable_of_cronNumber hm⟩
    case h_3 => cases h

theorem readable_of_itemValues (h : itemValues lo hi item = some values) :
    ∀ c ∈ item, Readable c := by
  refine readable_of_splitOn (a := '/') (.inr (by simp)) ?_
  rw [itemValues] at h
  split at h
  case h_1 range hsplit =>
    rw [hsplit]
    simpa using readable_of_rangeValues h
  case h_2 range step hsplit =>
    obtain ⟨v, hv, h⟩ := Option.bind_eq_some_iff.mp h
    obtain ⟨k, hk, -⟩ := Option.bind_eq_some_iff.mp h
    rw [hsplit]
    simpa using ⟨readable_of_rangeValues hv, readable_of_cronNumber hk⟩
  case h_3 => cases h

theorem readable_of_fieldValues (h : fieldValues lo hi field = some values) :
    ∀ c ∈ field, Readable c := by
  obtain ⟨vs, hvs, -⟩ := Option.map_eq_some_iff.mp h
  refine readable_of_splitOn (a := ',') (.inr (by simp)) ?_
  intro w hw
  obtain ⟨v, hv⟩ := Lib.exists_of_mapM hvs w hw
  exact readable_of_itemValues hv

theorem readable_of_cronTimes {fields : List Text} {times : Times}
    (h : cronTimes fields = some times) :
    fields.length = 5 ∧ ∀ field ∈ fields, ∀ c ∈ field, Readable c := by
  rw [cronTimes.eq_def] at h
  split at h
  case h_1 =>
    obtain ⟨_, hminute, h⟩ := Option.bind_eq_some_iff.mp h
    obtain ⟨_, hhour, h⟩ := Option.bind_eq_some_iff.mp h
    obtain ⟨_, hday, h⟩ := Option.bind_eq_some_iff.mp h
    obtain ⟨_, hmonth, h⟩ := Option.bind_eq_some_iff.mp h
    obtain ⟨_, hweekday, -⟩ := Option.bind_eq_some_iff.mp h
    refine ⟨rfl, ?_⟩
    simp only [List.forall_mem_cons]
    exact ⟨readable_of_fieldValues hminute, readable_of_fieldValues hhour,
      readable_of_fieldValues hday, readable_of_fieldValues hmonth,
      readable_of_fieldValues hweekday, by simp⟩
  case h_2 => cases h

end Values

section Reading

variable {spec : Text}

theorem Readable.plain {c : Char} (h : Readable c) :
    space c = false ∧ c ∉ ['\r', '\n', '%', '\x00', '\x0b', '\x0c', 'x'] := by
  have hne : ∀ d : Char, d.isDigit = false → d ∉ ['*', '-', '/', ','] → c ≠ d := by
    rintro d hdigit hother rfl
    rcases h with h | h
    · rw [hdigit] at h
      cases h
    · exact hother h
  constructor
  · simp only [space, decide_eq_false_iff_not, List.mem_cons, List.not_mem_nil, or_false, not_or]
    refine ⟨hne _ rfl ?_, hne _ rfl ?_, hne _ rfl ?_, hne _ rfl ?_, hne _ rfl ?_, hne _ rfl ?_⟩ <;>
      simp
  · simp only [List.mem_cons, List.not_mem_nil, or_false, not_or]
    refine ⟨hne _ rfl ?_, hne _ rfl ?_, hne _ rfl ?_, hne _ rfl ?_, hne _ rfl ?_, hne _ rfl ?_,
      hne _ rfl ?_⟩ <;> simp

theorem space_of_cronSpace {c : Char} (h : cronSpace c = true) : space c = true := by
  rcases Bool.or_eq_true_iff.mp h with h | h <;> simp [space, of_decide_eq_true h]

/-- Cron and PHP agree on what separates fields, but for the characters that are ruled out. -/
theorem cronSpace_eq {c : Char} (hline : c ≠ '\r' ∧ c ≠ '\n') (h : c ≠ '\x0b' ∧ c ≠ '\x0c') :
    cronSpace c = space c := by
  simp [space, cronSpace, hline.1, hline.2, h.1, h.2]

theorem plain_trim (hvalid : cronScheduleIsValid spec = true) :
    ∀ c ∈ trim spec, c ≠ '\r' ∧ c ≠ '\n' := by
  simp only [cronScheduleIsValid, Bool.and_eq_true] at hvalid
  intro c hc
  have hnot := List.all_eq_true.mp hvalid.1.1 c (Lib.mem_of_mem_trim hc)
  simp only [List.mem_cons, decide_eq_true_eq, not_or] at hnot
  exact ⟨hnot.1, hnot.2.1⟩

theorem length_scheduleFields (hvalid : cronScheduleIsValid spec = true) :
    (scheduleFields spec).length = 5 := by
  simp only [cronScheduleIsValid, Bool.and_eq_true, decide_eq_true_eq] at hvalid
  exact hvalid.1.2

/-- Cron reads the fields that were validated. -/
theorem cronFields_of_separated (hvalid : cronScheduleIsValid spec = true)
    (h : Separated (trim spec)) (command : Text) :
    ∃ rest, cronFields 5 (trim spec ++ ' ' :: command) = some (scheduleFields spec, rest) := by
  have hlength := length_scheduleFields hvalid
  have hline := plain_trim hvalid
  rw [scheduleFields] at hlength ⊢
  generalize trim spec = text at hlength hline h ⊢
  cases h with
  | all hplain =>
    have hpieces : Lib.pieces space text = Lib.pieces cronSpace text :=
      Lib.pieces_congr fun c hc ↦ (cronSpace_eq (hline c hc) (hplain c hc)).symm
    rw [hpieces] at hlength ⊢
    exact ⟨_, cronFields_append rfl hlength⟩
  | @tail text rest b hplain hb hrest =>
    have hpieces : Lib.pieces space (text ++ b :: rest) = Lib.pieces cronSpace text := by
      rw [Lib.pieces_append_right (List.forall_mem_cons.mpr ⟨space_of_cronSpace hb, hrest⟩)]
      exact Lib.pieces_congr fun c hc ↦
        (cronSpace_eq (hline c (List.mem_append_left _ hc)) (hplain c hc)).symm
    rw [hpieces] at hlength ⊢
    rw [List.append_assoc, List.cons_append]
    exact ⟨_, cronFields_append hb hlength⟩

theorem plain_of_readable {taken : Text}
    (h : ∀ field ∈ Lib.pieces cronSpace taken, ∀ c ∈ field, Readable c) :
    'x' ∉ taken ∧ ∀ c ∈ taken, c ≠ '\x0b' ∧ c ≠ '\x0c' := by
  have hchars : ∀ c ∈ taken, cronSpace c = true ∨ Readable c := by
    intro c hc
    rcases @Lib.mem_or_mem_pieces _ cronSpace _ _ hc with hc | ⟨field, hfield, hc⟩
    · exact .inl hc
    · exact .inr (h field hfield c hc)
  constructor
  · intro hx
    rcases hchars 'x' hx with hx | hx
    · cases hx
    · simpa using hx.plain.2
  · intro c hc
    rcases hchars c hc with hc | hc
    · rcases Bool.or_eq_true_iff.mp hc with hc | hc <;> simp [of_decide_eq_true hc]
    · have hnot := hc.plain.2
      simp only [List.mem_cons, not_or] at hnot
      exact ⟨hnot.2.2.2.2.1, hnot.2.2.2.2.2.1⟩

/-- Where cron can read five fields before a word that is none, they are the schedule. -/
theorem separated_of_firesAt (hvalid : cronScheduleIsValid spec = true) {t : Moment}
    (h : firesAt (trim spec ++ ' ' :: ['x']) t = true) : Separated (trim spec) := by
  have hlength := length_scheduleFields hvalid
  have hline := plain_trim hvalid
  rw [firesAt] at h
  split at h
  case h_1 => cases h
  case h_2 fields rest hfields =>
    obtain ⟨times, htimes, -⟩ := (Option.any_eq_true _ _).mp h
    obtain ⟨hfive, hreadable⟩ := readable_of_cronTimes htimes
    obtain ⟨taken, htaken, hpieces, -, hlast⟩ := exists_of_cronFields hfields
    rw [← hpieces] at hreadable
    obtain ⟨hx, hplain⟩ := plain_of_readable hreadable
    have hne : rest ≠ [] := by
      rintro rfl
      rw [List.append_nil] at htaken
      exact hx (by simp [← htaken])
    obtain ⟨rest, d, rfl⟩ := (List.eq_nil_or_concat' rest).resolve_left hne
    have htaken' : (trim spec ++ [' ']) ++ ['x'] = (taken ++ rest) ++ [d] := by
      simpa using htaken
    obtain ⟨htext, -⟩ := List.append_inj' htaken' rfl
    have htaken_ne : taken ≠ [] := by
      rintro rfl
      rw [← hpieces] at hfive
      cases hfive
    obtain ⟨u, b, rfl⟩ := (List.eq_nil_or_concat' taken).resolve_left htaken_ne
    have hb : cronSpace b = true := hlast hne b (by simp)
    have hu : ∀ c ∈ u, c ≠ '\x0b' ∧ c ≠ '\x0c' := fun c hc ↦ hplain c (by simp [hc])
    rw [List.append_assoc, List.singleton_append] at htext
    rcases List.eq_nil_or_concat' rest with rfl | ⟨v, e, rfl⟩
    · obtain ⟨hspec, -⟩ := List.append_inj' htext rfl
      rw [hspec]
      exact .all hu
    · rw [← List.cons_append, ← List.append_assoc] at htext
      obtain ⟨hspec, -⟩ := List.append_inj' htext rfl
      rw [scheduleFields, hspec, Lib.pieces_append_sep (space_of_cronSpace hb)] at hlength
      rw [hspec] at hline ⊢
      -- The five fields stand before the space, so none stands after it.
      have hpieces' : Lib.pieces space u = fields := by
        rw [← hpieces, Lib.pieces_append_right (v := [b]) (by simpa using hb)]
        exact Lib.pieces_congr fun c hc ↦
          (cronSpace_eq (hline c (List.mem_append_left _ hc)) (hu c hc)).symm
      rw [List.length_append, hpieces', hfive] at hlength
      exact .tail hu hb (Lib.pieces_eq_nil.mp (List.length_eq_zero_iff.mp (by omega)))

end Reading

/-- The schedules that the controls draw, by the fields of each. -/
inductive Drawn : Parts → List Text → Prop
  | hourly {minute : Text} {n : ℕ} : Number minute n → n ≤ 59 →
      Drawn ⟨"hourly", 0, n⟩ [minute, ['*'], ['*'], ['*'], ['*']]
  | weekly {minute hour dow : Text} {n m : ℕ} {frequency : String} :
      Number minute n → n ≤ 59 → Number hour m → m ≤ 23 → frequency ≠ "hourly" →
      (frequency, if dow = ['7'] then ['0'] else dow) ∈ cronFrequencies →
      Drawn ⟨frequency, m, n⟩ [minute, hour, ['*'], ['*'], dow]

section Drawn

variable {text spec frequency : Text} {fields fields' : List Text} {parts : Parts} {lo hi : ℤ}
  {n : ℕ}

theorem number_decimal (n : ℕ) : Number (decimal n) n := by
  have htext : decimal n = Nat.toDigits 10 n := by simp [decimal]
  refine ⟨?_, ?_, ?_⟩
  · rw [htext]
    exact Nat.toDigits_ne_nil
  · intro c hc
    rw [htext] at hc
    exact Nat.isDigit_of_mem_toDigits (by decide) (by decide) hc
  · rw [htext, Nat.ofDigitChars_ten_toDigits]

theorem Number.le_of_itemIsValid (h : Number text n) (hhi : hi < 2 ^ 63 - 1)
    (hvalid : itemIsValid lo hi text = true) : (n : ℤ) ≤ hi := by
  have hstar : text ≠ ['*'] := by
    rintro rfl
    exact h.notMem (c := '*') rfl (by simp)
  rw [itemIsValid, if_neg h.ne_nil, if_neg (h.notMem rfl), rangeIsValid, if_neg hstar,
    if_neg (h.notMem rfl)] at hvalid
  simp only [h.allDigits, h.intval, Bool.true_and, Bool.not_eq_true', Bool.or_eq_false_iff,
    decide_eq_false_iff_not] at hvalid
  omega

/-- The number of a field of a schedule is within the field's range. -/
theorem Number.le_of_cronScheduleIsValid (h : Number text n)
    (hvalid : cronScheduleIsValid spec = true)
    (hmem : (text, lo, hi) ∈ (scheduleFields spec).zip ranges) : (n : ℤ) ≤ hi := by
  simp only [cronScheduleIsValid, Bool.and_eq_true] at hvalid
  have hitems := List.all_eq_true.mp (List.all_eq_true.mp hvalid.2 _ hmem)
  rw [List.splitOn_eq_singleton (h.notMem rfl)] at hitems
  exact h.le_of_itemIsValid (ranges_below (List.of_mem_zip hmem).2) (hitems text (by simp))

theorem drawn_of_cronToParts (h : cronToParts spec = some parts) :
    cronScheduleIsValid spec = true ∧ Drawn parts (scheduleFields spec) := by
  rw [cronToParts] at h
  obtain ⟨hvalid, h⟩ := Option.ite_none_left_eq_some.mp h
  rw [Bool.not_eq_true, Bool.not_eq_false'] at hvalid
  refine ⟨hvalid, ?_⟩
  split at h
  case h_1 minute hour dom month dow hfields =>
    obtain ⟨hdays, hrest⟩ := Option.ite_none_left_eq_some.mp h
    obtain ⟨hminute, hrest⟩ := Option.ite_none_left_eq_some.mp hrest
    obtain ⟨rfl, rfl⟩ : dom = ['*'] ∧ month = ['*'] := by simpa using hdays
    have hzip : (scheduleFields spec).zip ranges =
        [(minute, 0, 59), (hour, 0, 23), (['*'], 1, 31), (['*'], 1, 12), (dow, 0, 7)] := by
      rw [hfields]
      rfl
    have hline : ∀ text ∈ scheduleFields spec, '\n' ∉ text := by
      intro text htext hmem
      have hspace := (Lib.mem_pieces htext).2 '\n' hmem
      cases hspace
    obtain ⟨n, hn⟩ := (allDigits_iff (hline minute (by simp [hfields]))).mp (by simpa using hminute)
    have hle : (n : ℤ) ≤ 59 := hn.le_of_cronScheduleIsValid hvalid (hzip ▸ List.mem_cons_self)
    have hnval : intval minute = n := by
      rw [hn.intval]
      omega
    rw [hfields]
    split at hrest
    case isTrue hstar =>
      obtain ⟨hdow, hrest⟩ := Option.ite_none_left_eq_some.mp hrest
      obtain rfl : dow = ['*'] := by simpa using hdow
      obtain rfl := Option.some.inj hrest
      rw [hstar, hnval]
      exact .hourly hn (by omega)
    case isFalse =>
      obtain ⟨hhour, hrest⟩ := Option.ite_none_left_eq_some.mp hrest
      obtain ⟨m, hm⟩ := (allDigits_iff (hline hour (by simp [hfields]))).mp (by simpa using hhour)
      have hle' : (m : ℤ) ≤ 23 :=
        hm.le_of_cronScheduleIsValid hvalid (hzip ▸ List.mem_cons_of_mem _ List.mem_cons_self)
      have hmval : intval hour = m := by
        rw [hm.intval]
        omega
      obtain ⟨⟨name, field⟩, hfind, hparts⟩ := Option.map_eq_some_iff.mp hrest
      rw [← hparts, hnval, hmval]
      have hmem := List.mem_of_find?_eq_some hfind
      have hentry := List.find?_some hfind
      simp only [Bool.and_eq_true, decide_eq_true_eq] at hentry
      obtain ⟨hname, rfl⟩ := hentry
      exact .weekly hn (by omega) hm (by omega) (by simpa using hname) hmem
  case h_2 => cases h

theorem find_of_mem {entry : String × Text} (h : entry ∈ cronFrequencies)
    (hne : entry.1 ≠ "hourly") :
    cronFrequencies.find? (fun (name, field) ↦ name ≠ "hourly" && field = entry.2) =
      some entry := by
  have hall : ∀ entry ∈ cronFrequencies, entry.1 ≠ "hourly" →
      cronFrequencies.find? (fun (name, field) ↦ name ≠ "hourly" && field = entry.2) =
        some entry := by decide
  exact hall entry h hne

theorem lookup_of_mem {entry : String × Text} (h : entry ∈ cronFrequencies) :
    cronFrequencies.lookup entry.1 = some entry.2 := by
  have hall : ∀ entry ∈ cronFrequencies, cronFrequencies.lookup entry.1 = some entry.2 := by decide
  exact hall entry h

/-- The table has one number for Sunday. -/
theorem mem_of_lookup {frequency : String} {field : Text}
    (h : cronFrequencies.lookup frequency = some field) :
    (frequency, field) ∈ cronFrequencies ∧ field ≠ ['7'] := by
  have hall : ∀ entry ∈ cronFrequencies, entry.2 ≠ ['7'] := by decide
  obtain ⟨before, after, hsplit, -⟩ := List.lookup_eq_some_iff.mp h
  have hmem : (frequency, field) ∈ cronFrequencies := by simp [hsplit]
  exact ⟨hmem, hall _ hmem⟩

theorem cronToParts_of_drawn (hvalid : cronScheduleIsValid spec = true)
    (h : Drawn parts (scheduleFields spec)) : cronToParts spec = some parts := by
  have hnumber : ∀ {text : Text} {n : ℕ}, Number text n → n ≤ 59 → intval text = n := by
    intro text n hn hle
    rw [hn.intval]
    omega
  rw [cronToParts, hvalid]
  generalize scheduleFields spec = fields at h ⊢
  cases h with
  | hourly hn hle => simp [hn.allDigits, hnumber hn hle]
  | @weekly minute hour dow n m frequency hn hle hm hle' hname hmem =>
    have hstar : hour ≠ ['*'] := by
      rintro rfl
      exact hm.notMem (c := '*') rfl (by simp)
    simp only [Bool.not_true, Bool.false_eq_true, if_false, ne_eq, not_true_eq_false, or_self,
      hn.allDigits, hm.allDigits, if_neg hstar, hnumber hn hle, hnumber hm (by omega)]
    rw [find_of_mem hmem hname]
    rfl

theorem readable_of_mem {entry : String × Text} (h : entry ∈ cronFrequencies) :
    entry.2 ≠ [] ∧ ∀ c ∈ entry.2, c.isDigit = true ∨ c ∈ ['*', '-', '/', ','] := by
  have hall : ∀ entry ∈ cronFrequencies,
      entry.2 ≠ [] ∧ entry.2.all fun c ↦ c.isDigit || c ∈ ['*', '-', '/', ','] := by decide
  obtain ⟨hne, hchars⟩ := hall entry h
  exact ⟨hne, by simpa [List.all_eq_true] using hchars⟩

theorem Number.readable (h : Number text n) : text ≠ [] ∧ ∀ c ∈ text, Readable c :=
  ⟨h.ne_nil, fun c hc ↦ .inl (h.digits c hc)⟩

theorem Drawn.readable (h : Drawn parts fields) :
    ∀ field ∈ fields, field ≠ [] ∧ ∀ c ∈ field, Readable c := by
  have hstar : ['*'] ≠ [] ∧ ∀ c ∈ ['*'], Readable c := ⟨by simp, by simp [Readable]⟩
  cases h with
  | hourly hn _ =>
    intro field hfield
    simp only [List.mem_cons, List.not_mem_nil, or_false] at hfield
    rcases hfield with rfl | rfl | rfl | rfl | rfl
    · exact hn.readable
    all_goals exact hstar
  | @weekly minute hour dow n m frequency hn _ hm _ _ hmem =>
    have hdow : dow ≠ [] ∧ ∀ c ∈ dow, Readable c := by
      by_cases hseven : dow = ['7']
      · rw [hseven]
        exact ⟨by simp, by simp [Readable]⟩
      · rw [if_neg hseven] at hmem
        exact readable_of_mem hmem
    intro field hfield
    simp only [List.mem_cons, List.not_mem_nil, or_false] at hfield
    rcases hfield with rfl | rfl | rfl | rfl | rfl
    · exact hn.readable
    · exact hm.readable
    · exact hstar
    · exact hstar
    · exact hdow

theorem mem_of_intercalate {c : Char} (h : c ∈ [' '].intercalate fields) :
    c = ' ' ∨ ∃ field ∈ fields, c ∈ field := by
  rw [List.intercalate, List.mem_flatten] at h
  obtain ⟨field, hfield, hc⟩ := h
  rcases Lib.mem_intersperse hfield with hfield | rfl
  · exact .inr ⟨field, hfield, hc⟩
  · exact .inl (List.mem_singleton.mp hc)

theorem Drawn.plain (h : Drawn parts fields) :
    ∀ c ∈ [' '].intercalate fields, c ∉ ['\r', '\n', '%', '\x00', '\x0b', '\x0c', 'x'] := by
  intro c hc
  rcases mem_of_intercalate hc with rfl | ⟨field, hfield, hc⟩
  · simp
  · exact ((h.readable field hfield).2 c hc).plain.2

theorem Drawn.scheduleFields (h : Drawn parts fields) :
    CronTab.scheduleFields ([' '].intercalate fields) = fields := by
  have hspace : ∀ c ∈ [' '].intercalate fields, trimmed c = true → space c = true := by
    intro c hc htrimmed
    have hplain := h.plain c hc
    simp only [List.mem_cons, not_or] at hplain
    simp only [trimmed, List.mem_cons, decide_eq_true_eq] at htrimmed
    simp only [space, List.mem_cons, decide_eq_true_eq]
    tauto
  rw [CronTab.scheduleFields, trim, Lib.pieces_trim hspace, Lib.pieces_intercalate rfl]
  intro field hfield
  obtain ⟨hne, hreadable⟩ := h.readable field hfield
  exact ⟨hne, fun c hc ↦ (hreadable c hc).plain.1⟩

theorem Drawn.valid (h : Drawn parts fields) :
    cronScheduleIsValid ([' '].intercalate fields) = true := by
  have hplain : ([' '].intercalate fields).all (fun c ↦ c ∉ ['\r', '\n', '%']) = true := by
    rw [List.all_eq_true]
    intro c hc
    have hnot := h.plain c hc
    simp only [List.mem_cons, not_or] at hnot
    simp [hnot.1, hnot.2.1, hnot.2.2.1]
  have hstar : ∀ lo hi : ℤ, (['*'].splitOn ',').all (itemIsValid lo hi) = true := by
    intro lo hi
    rw [List.splitOn_eq_singleton (by simp)]
    simp [itemIsValid, rangeIsValid]
  have hnumber : ∀ {text : Text} {n : ℕ} (hi : ℤ), Number text n → hi < 2 ^ 63 - 1 → n ≤ hi →
      (text.splitOn ',').all (itemIsValid 0 hi) = true := by
    intro text n hi hn hhi hle
    have hitem : itemIsValid 0 hi text = true :=
      (itemIsValid_iff hhi (hn.notMem rfl)).mpr (.item (.number (.number hn (by omega) hle)))
    rw [List.splitOn_eq_singleton (hn.notMem rfl)]
    simp [hitem]
  rw [cronScheduleIsValid, hplain, h.scheduleFields]
  cases h with
  | hourly hn hle =>
    have hminute := hnumber 59 hn (by omega) (by omega)
    simp only [ranges, List.zip_cons_cons, List.zip_nil_right, List.all_cons, List.all_nil,
      hminute, hstar]
    rfl
  | @weekly minute hour dow n m frequency hn hle hm hle' hname hmem =>
    have hminute := hnumber 59 hn (by omega) (by omega)
    have hhour := hnumber 23 hm (by omega) (by omega)
    have hdow : (dow.splitOn ',').all (itemIsValid 0 7) = true := by
      have hall : ∀ entry ∈ cronFrequencies,
          (entry.2.splitOn ',').all (itemIsValid 0 7) = true := by decide
      by_cases hseven : dow = ['7']
      · rw [hseven]
        decide
      · rw [if_neg hseven] at hmem
        exact hall _ hmem
    simp only [ranges, List.zip_cons_cons, List.zip_nil_right, List.all_cons, List.all_nil,
      hminute, hhour, hdow, hstar]
    rfl

theorem fieldValues_star (lo hi : ℕ) :
    fieldValues lo hi ['*'] = some (List.range' lo (hi + 1 - lo)) := by
  have hitem : itemValues lo hi ['*'] = some (List.range' lo (hi + 1 - lo)) := by
    rw [itemValues, List.splitOn_eq_singleton (by simp)]
    rfl
  rw [fieldValues, List.splitOn_eq_singleton (by simp)]
  simp [hitem]

/-- The two numbers of Sunday stand for the same day. -/
theorem onWeekday_seven (dow : Text) (w : Fin 7) :
    (fieldValues 0 7 (if dow = ['7'] then ['0'] else dow)).any (onWeekday w) =
      (fieldValues 0 7 dow).any (onWeekday w) := by
  split_ifs with hseven
  · subst hseven
    revert w
    decide
  · rfl

theorem exists_onWeekday {entry : String × Text} (h : entry ∈ cronFrequencies) :
    ∃ w, (fieldValues 0 7 entry.2).any (onWeekday w) = true := by
  have hall : ∀ entry ∈ cronFrequencies,
      ∃ w, (fieldValues 0 7 entry.2).any (onWeekday w) = true := by decide
  exact hall entry h

theorem fires_of_everyDay {times : Times} {t : Moment} (hdays : times.days = List.range' 1 31)
    (hmonths : times.months = List.range' 1 12) (hevery : times.everyDay = true) :
    times.fires t = (decide (t.minute.val ∈ times.minutes) && decide (t.hour.val ∈ times.hours) &&
      onWeekday t.weekday times.weekdays) := by
  simp [Times.fires, hdays, hmonths, hevery, t.day_mem, t.month_mem]

/-- Cron fires what is drawn when the controls say. -/
theorem Drawn.fires (h : Drawn parts fields) :
    ∃ times, cronTimes fields = some times ∧ ∀ t, times.fires t = parts.fires t := by
  cases h with
  | @hourly minute n hn hle =>
    have hvalues := fieldValues_of_number hn (Nat.zero_le n) hle
    refine ⟨⟨[n], List.range' 0 24, List.range' 1 31, List.range' 1 12, List.range' 0 8, true⟩,
      ?_, ?_⟩
    · simp [cronTimes, hvalues, fieldValues_star]
    · intro t
      have hhour : t.hour.val ∈ List.range' 0 24 := by simp
      have hweekday : onWeekday t.weekday (List.range' 0 8) = true := by
        generalize t.weekday = w
        revert w
        decide
      rw [fires_of_everyDay rfl rfl rfl]
      simp [Parts.fires, hhour, hweekday]
  | @weekly minute hour dow n m frequency hn hle hm hle' hname hmem =>
    have hminute := fieldValues_of_number hn (Nat.zero_le n) hle
    have hhour := fieldValues_of_number hm (Nat.zero_le m) hle'
    obtain ⟨w, hw⟩ := exists_onWeekday hmem
    rw [onWeekday_seven] at hw
    obtain ⟨weekdays, hweekdays, -⟩ := (Option.any_eq_true _ _).mp hw
    refine ⟨⟨[n], [m], List.range' 1 31, List.range' 1 12, weekdays, true⟩, ?_, ?_⟩
    · simp [cronTimes, hminute, hhour, hweekdays, fieldValues_star]
    · intro t
      rw [fires_of_everyDay rfl rfl rfl]
      simp only [Parts.fires, lookup_of_mem hmem, Option.any_some, onWeekday_seven, hweekdays]
      simp [hname, Bool.and_assoc]

/-- The controls show no time that never comes. -/
theorem Drawn.exists_fires (h : Drawn parts fields) : ∃ t, parts.fires t = true := by
  cases h with
  | @hourly minute n _ hle =>
    refine ⟨⟨⟨n, by omega⟩, 0, 1, 1, 0, by decide, by decide⟩, ?_⟩
    simp [Parts.fires]
  | @weekly minute hour dow n m frequency _ hle _ hle' _ hmem =>
    obtain ⟨w, hw⟩ := exists_onWeekday hmem
    refine ⟨⟨⟨n, by omega⟩, ⟨m, by omega⟩, 1, 1, w, by decide, by decide⟩, ?_⟩
    simp [Parts.fires, lookup_of_mem hmem, hw]

theorem firesAt_of_drawn (hvalid : cronScheduleIsValid spec = true)
    (hdrawn : Drawn parts (CronTab.scheduleFields spec)) (h : Separated (trim spec))
    (command : Text) (t : Moment) : firesAt (trim spec ++ ' ' :: command) t = parts.fires t := by
  obtain ⟨rest, hfields⟩ := cronFields_of_separated hvalid h command
  obtain ⟨times, htimes, hfires⟩ := hdrawn.fires
  rw [firesAt, hfields]
  simp [htimes, hfires]

/-- What the controls make is drawn by them. -/
theorem drawn_of_cronFromParts {frequency : String} {hour minute : Text}
    (h : cronFromParts frequency hour minute = some spec) :
    ∃ fields, spec = [' '].intercalate fields ∧
      Drawn ⟨frequency, if frequency = "hourly" then 0 else intval hour, intval minute⟩ fields := by
  have hnumber : ∀ {text : Text} {hi : ℤ}, ¬(intval text < 0 ∨ hi < intval text) →
      ∃ n : ℕ, intval text = n ∧ n ≤ hi := by
    intro text hi hbounds
    refine ⟨(intval text).toNat, ?_, ?_⟩ <;> omega
  rw [cronFromParts] at h
  split at h
  case h_1 => cases h
  case h_2 field hlookup =>
    obtain ⟨-, h⟩ := Option.ite_none_left_eq_some.mp h
    obtain ⟨hminute, h⟩ := Option.ite_none_left_eq_some.mp h
    obtain ⟨n, hn, hle⟩ := hnumber hminute
    rw [hn] at h ⊢
    split at h
    case isTrue hhourly =>
      obtain rfl := Option.some.inj h
      refine ⟨[decimal n, ['*'], ['*'], ['*'], ['*']], by simp [List.intercalate], ?_⟩
      rw [hhourly, if_pos rfl]
      exact .hourly (number_decimal n) (by omega)
    case isFalse hname =>
      obtain ⟨-, h⟩ := Option.ite_none_left_eq_some.mp h
      obtain ⟨hhour, h⟩ := Option.ite_none_left_eq_some.mp h
      obtain ⟨m, hm, hle'⟩ := hnumber hhour
      rw [hm] at h ⊢
      obtain rfl := Option.some.inj h
      refine ⟨[decimal n, decimal m, ['*'], ['*'], field], by simp [List.intercalate], ?_⟩
      rw [if_neg hname]
      have hmem : (frequency, if field = ['7'] then ['0'] else field) ∈ cronFrequencies := by
        rw [if_neg (mem_of_lookup hlookup).2]
        exact (mem_of_lookup hlookup).1
      exact .weekly (number_decimal n) (by omega) (number_decimal m) (by omega) hname hmem

theorem cronToParts_cronFromParts {frequency : String} {hour minute : Text}
    (h : cronFromParts frequency hour minute = some spec) :
    cronToParts spec =
      some ⟨frequency, if frequency = "hourly" then 0 else intval hour, intval minute⟩ := by
  obtain ⟨fields, rfl, hdrawn⟩ := drawn_of_cronFromParts h
  refine cronToParts_of_drawn hdrawn.valid ?_
  rw [hdrawn.scheduleFields]
  exact hdrawn

/-- The parts of a schedule can be put together again. -/
theorem Drawn.exists_cronFromParts (h : Drawn parts fields) :
    ∃ spec, cronFromParts parts.frequency (decimal parts.hour) (decimal parts.minute) =
      some spec ∧ cronToParts spec = some parts := by
  have hvalue : ∀ n : ℕ, n ≤ 59 → intval (decimal n) = n := by
    intro n hn
    rw [(number_decimal n).intval]
    omega
  have hdigits : ∀ n : ℕ, allDigits (decimal n) = true := fun n ↦ (number_decimal n).allDigits
  have hsome : ∃ spec, cronFromParts parts.frequency (decimal parts.hour) (decimal parts.minute) =
      some spec := by
    cases h with
    | @hourly minute n hn hle =>
      have hlookup : cronFrequencies.lookup "hourly" = some ['*'] := by decide
      refine ⟨decimal n ++ " * * * *".toList, ?_⟩
      rw [cronFromParts, hlookup]
      simp only [hdigits, hvalue n hle]
      rw [if_neg (by simp), if_neg (by omega), if_pos trivial]
    | @weekly minute hour dow n m frequency hn hle hm hle' hname hmem =>
      refine ⟨decimal n ++ ' ' :: decimal m ++ " * * ".toList ++
        (if dow = ['7'] then ['0'] else dow), ?_⟩
      rw [cronFromParts, lookup_of_mem hmem]
      simp only [hdigits, hvalue n hle, hvalue m (by omega)]
      rw [if_neg (by simp), if_neg (by omega), if_neg hname, if_neg (by simp), if_neg (by omega)]
  obtain ⟨spec, hspec⟩ := hsome
  refine ⟨spec, hspec, ?_⟩
  rw [cronToParts_cronFromParts hspec]
  cases h with
  | @hourly minute n hn hle => simp only [hvalue n hle, if_pos]
  | @weekly minute hour dow n m frequency hn hle hm hle' hname hmem =>
    simp only [hvalue n hle, hvalue m (by omega : m ≤ 59), if_neg hname]

end Drawn

/-- The editor keeps the schedule that it shows. -/
def Kept (spec : Text) (parts : Parts) : Prop :=
  ∃ spec', cronFromParts parts.frequency (decimal parts.hour) (decimal parts.minute) = some spec' ∧
    cronScheduleIsValid spec' = true ∧ SameMinutes spec spec'

theorem separated_of_cronFromParts {frequency : String} {hour minute spec : Text}
    (h : cronFromParts frequency hour minute = some spec) : Separated (trim spec) := by
  obtain ⟨fields, rfl, hdrawn⟩ := drawn_of_cronFromParts h
  refine .all fun c hc ↦ ?_
  have hplain := hdrawn.plain c (Lib.mem_of_mem_trim hc)
  simp only [List.mem_cons, not_or] at hplain
  exact ⟨hplain.2.2.2.2.1, hplain.2.2.2.2.2.1⟩

theorem kept_iff {spec : Text} {parts : Parts} (h : cronToParts spec = some parts) :
    Kept spec parts ↔ Separated (trim spec) := by
  obtain ⟨hvalid, hdrawn⟩ := drawn_of_cronToParts h
  obtain ⟨spec', hspec', hparts⟩ := hdrawn.exists_cronFromParts
  obtain ⟨hvalid', hdrawn'⟩ := drawn_of_cronToParts hparts
  have hseparated := separated_of_cronFromParts hspec'
  constructor
  · rintro ⟨other, hother, -, hsame⟩
    obtain rfl := Option.some.inj (hspec'.symm.trans hother)
    obtain ⟨t, ht⟩ := hdrawn.exists_fires
    rw [← firesAt_of_drawn hvalid' hdrawn' hseparated ['x'] t, ← hsame] at ht
    exact separated_of_firesAt hvalid ht
  · intro hspec
    refine ⟨spec', hspec', hvalid', fun command t ↦ ?_⟩
    rw [firesAt_of_drawn hvalid hdrawn hspec, firesAt_of_drawn hvalid' hdrawn' hseparated]

/-- The editor keeps what it reads where cron reads the same fields, and it reads what it writes. -/
theorem editor_iff (spec : Text) (frequency : String) (hour minute : Text) :
    (∀ parts, cronToParts spec = some parts → (Kept spec parts ↔ Separated (trim spec))) ∧
    ∀ made, cronFromParts frequency hour minute = some made →
      ∃ parts, cronToParts made = some parts ∧ parts.frequency = frequency ∧
        parts.minute = intval minute ∧ (frequency ≠ "hourly" → parts.hour = intval hour) := by
  refine ⟨fun parts h ↦ kept_iff h, fun made h ↦ ?_⟩
  refine ⟨_, cronToParts_cronFromParts h, rfl, rfl, ?_⟩
  intro hname
  rw [if_neg hname]

theorem editor_iff_sunday :
    Kept "05 7 * * 7".toList ⟨"sunday", 7, 5⟩ ∧
    cronFromParts "sunday" ['7'] ['5'] = some "5 7 * * 0".toList ∧
    ∃ parts, cronToParts "5 7 * * 0".toList = some parts ∧ parts.frequency = "sunday" ∧
      parts.minute = 5 ∧ parts.hour = 7 := by
  have hmade : cronFromParts "sunday" ['7'] ['5'] = some "5 7 * * 0".toList := by decide +kernel
  refine ⟨?_, hmade, ?_⟩
  · apply ((editor_iff _ "sunday" ['7'] ['5']).1 _ (by decide +kernel)).mpr
    have htrim : trim "05 7 * * 7".toList = "05 7 * * 7".toList := by decide
    rw [htrim]
    exact .all (by simp)
  · obtain ⟨parts, hparts, hname, hminute, hhour⟩ := (editor_iff [] "sunday" ['7'] ['5']).2 _ hmade
    exact ⟨parts, hparts, hname, hminute.trans (by decide), (hhour (by decide)).trans (by decide)⟩

/-- A vertical tab between two fields, which cron takes for a part of one. -/
theorem shifted_editor :
    cronToParts "5\x0b7 * * *".toList = some ⟨"daily", 7, 5⟩ ∧
      ¬Kept "5\x0b7 * * *".toList ⟨"daily", 7, 5⟩ := by
  refine ⟨by decide +kernel, ?_⟩
  rintro ⟨spec, hspec, -, hsame⟩
  have hplain : cronFromParts "daily" (decimal 7) (decimal 5) = some "5 7 * * *".toList := by
    decide +kernel
  obtain rfl := Option.some.inj (hplain.symm.trans hspec)
  have hfires := hsame ['x'] ⟨5, 7, 1, 1, 0, by decide, by decide⟩
  revert hfires
  decide +kernel

end ZoneMinder.CronTab
