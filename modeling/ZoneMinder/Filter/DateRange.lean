import ZoneMinder.Filter.Injection
import ZoneMinder.WebFilter.DateRange
import ZoneMinder.WebFilter.Injection

namespace ZoneMinder.Filter

open Lib

/-- A value of a date term in the statement. -/
def dayPieces : DayValue → List Piece
  | .date d time => [.quoted (String.ofList d.text ++ time)]
  | .today => [.user "CURDATE()"]
  | .now => [.user "NOW()"]

/-- What the database makes of the column and of the bounds that a range compares it with. -/
def instantOf (clock : Instant) (column : Option Instant) : List Piece → Option Instant
  | [.code _] => column
  | [.date text] => readInstant text.toList
  | [.user text] => if text = "NOW()" then some clock else some (.midnight clock.date)
  | [.user text, .code _] =>
    if text = "NOW()" then clock.tomorrow else clock.date.next.map .midnight
  | _ => none

def dateRow (clock : Instant) (column : Option Instant) : Row (List Piece) Instant where
  datum := instantOf clock column
  eq a b := a = b
  lt a b := a < b
  like _ _ := false
  regexp _ _ := false
  parity _ _ := false
  finds _ := false

/-- The date functions know the calendar, and what the database quotes stands between quotes. -/
structure Script.Calendar (script : Script) : Prop where
  nextDay : ∀ d : Date, script.nextDay (String.ofList d.text) = String.ofList d.nextText
  quote : ∀ text, (script.quote text).toList.head? = some '\''

/-- Whenever the statement runs but on the last day of the calendar, and whatever a column holds,
the fragment is one operand with the truth of the comparison of days. -/
def Replaces (script : Script) (op : String) (r : RangeOp) (first : DayValue) (rest : List DayValue) :
    Prop :=
  ∀ clock : Instant, clock.date.next.isSome → ∀ (column : Option Instant) (name : String),
    ∃ words, rangeWords [.code name] op (((first :: rest).map dayPieces).map (dateBounds script)) =
        some words ∧
      render script (wordsSql Piece.code words) =
        render script (dateRangeSql script name op ((first :: rest).map dayPieces)) ∧
      StandsFor (dateRow clock column) words
        (r.daysTruth column ((first :: rest).map (DayValue.day clock)))

variable {script : Script} {clock : Instant} {column : Option Instant} {value first : DayValue}
  {rest : List DayValue} {op : String} {r : RangeOp} {d : Date}

theorem writer (script : Script) :
    Writer Piece.code (fun pieces ↦ (render script pieces).toList) where
  append pieces pieces' := by simp [render_append]
  code_cons text pieces := by simp [render, Piece.render, String.join_cons]
  nil := by simp [render]

theorem dayOf_text (d : Date) (time : String) :
    dayOf script (String.ofList d.text ++ time) = some (String.ofList d.text) := by
  have htake : (String.ofList d.text ++ time).toList.take 10 = d.text := by
    rw [String.toList_append, String.toList_ofList]
    exact List.take_left' rfl
  have hdigits : ∀ c ∈ d.text.filter (fun c ↦ c ≠ '-'), Perl.digit script.toRuntime c := by
    intro c hc
    have hdigit := d.text_digits.2 c hc
    have hsmall : c.toNat < 128 := by
      rw [Char.isDigit, Bool.and_eq_true, decide_eq_true_eq, decide_eq_true_eq] at hdigit
      exact (UInt32.le_iff_toNat_le.mp hdigit.2).trans_lt (by decide)
    rw [Perl.digit, if_pos hsmall]
    exact hdigit
  have hdash : d.text[4]? = some '-' ∧ d.text[7]? = some '-' ∧ d.text.length = 10 := ⟨rfl, rfl, rfl⟩
  simp only [dayOf, htake, List.all_eq_true]
  rw [if_pos ⟨hdash.2.2, hdash.1, hdash.2.1, d.text_digits.1, hdigits⟩]

theorem dateRow_bounded (hcalendar : script.Calendar) (value : DayValue) :
    Bounded (dateRow clock column) clock (dateBounds script (dayPieces value)) value := by
  cases value with
  | date d time =>
    have hbounds : dateBounds script (dayPieces (.date d time)) =
        ([.date (String.ofList d.text ++ " 00:00:00")], [.date (String.ofList d.nextText)]) := by
      simp only [dayPieces, dateBounds, dayOf_text, hcalendar.nextDay]
    rw [hbounds]
    constructor
    · simp only [dateRow, instantOf, String.toList_append, String.toList_ofList]
      exact readInstant_midnight d
    · simp only [dateRow, instantOf, String.toList_ofList]
      exact readInstant_nextText d
  | today => exact ⟨rfl, rfl⟩
  | now => exact ⟨rfl, rfl⟩

theorem isNull_dayPieces (hcalendar : script.Calendar) (value : DayValue) :
    Perl.isNull (render script (dayPieces value)) = false := by
  cases value with
  | date d time =>
    have hrender : render script (dayPieces (.date d time)) =
        script.quote (String.ofList d.text ++ time) := by
      simp [dayPieces, render, Piece.render]
    have hhead := hcalendar.quote (String.ofList d.text ++ time)
    rw [Perl.isNull, hrender, decide_eq_false_iff_not]
    intro h
    cases htext : (script.quote (String.ofList d.text ++ time)).toList with
    | nil => simp [htext] at hhead
    | cons c cs =>
      rw [htext, List.head?_cons, Option.some.injEq] at hhead
      rw [htext, hhead] at h
      exact absurd (List.head_eq_of_cons_eq h) (by decide)
  | today =>
    have hrender : render script (dayPieces .today) = "CURDATE()" := by
      simp [dayPieces, render, Piece.render]
    rw [hrender]
    decide
  | now =>
    have hrender : render script (dayPieces .now) = "NOW()" := by
      simp [dayPieces, render, Piece.render]
    rw [hrender]
    decide

/-- The range is written as the words for it. -/
theorem dateRangeSql_eq (hcalendar : script.Calendar) (hop : rangeOps.lookup op = some r)
    (name : String) :
    dateRangeSql script name op ((first :: rest).map dayPieces) =
      rangeSql Piece.code name op (((first :: rest).map dayPieces).map (dateBounds script)) := by
  have hnull : Perl.isNull (render script (((first :: rest).map dayPieces).headD [])) = false :=
    isNull_dayPieces hcalendar first
  have hlisted := mem_of_lookup hop
  simp only [rangeOps, List.mem_cons, List.not_mem_nil, or_false, Prod.mk.injEq] at hlisted
  simp only [dateRangeSql, rangeSql, List.map_map, hnull]
  rcases hlisted with ⟨rfl, -⟩ | ⟨rfl, -⟩ | ⟨rfl, -⟩ | ⟨rfl, -⟩ | ⟨rfl, -⟩ | ⟨rfl, -⟩ | ⟨rfl, -⟩ |
    ⟨rfl, -⟩ | ⟨rfl, -⟩ | ⟨rfl, -⟩ | ⟨rfl, -⟩ | ⟨rfl, -⟩ <;> simp <;> rfl

theorem replaces_iff_agrees (hcalendar : script.Calendar) (hop : rangeOps.lookup op = some r) :
    Replaces script op r first rest ↔ r.Agrees first rest := by
  refine standsFor_iff_agrees (fun name words hwords ↦ ?_) fun clock column name ↦ ?_
  · have htext := (writer script).rangeWords hwords
    rw [← dateRangeSql_eq hcalendar hop] at htext
    exact String.toList_inj.mp htext
  · refine @isOperand_rangeWords _ (dateRow clock column) clock [.code name] ⟨rfl⟩ op r hop _ _ _ ?_
    rw [List.map_map, List.forall₂_map_left_iff, List.forall₂_same]
    exact fun value _ ↦ dateRow_bounded hcalendar value

/-- Both pages and scripts replace a comparison of days exactly where the ranges of the values are
their days, and the first of several values decides. -/
theorem replaces_iff {web : WebFilter.Web} (hweb : web.Calendar) (hscript : script.Calendar)
    (hop : rangeOps.lookup op = some r) :
    WebFilter.Replaces web op r first rest ∧ Replaces script op r first rest ↔
      r.Stands first rest := by
  rw [WebFilter.replaces_iff_agrees hweb hop, replaces_iff_agrees hscript hop, and_self, agrees_iff]

/-- The day after one that is written as a date. -/
def nextDayOf (day : String) : String :=
  match readInstant (day.toList ++ " 00:00:00".toList) with
  | some i => String.ofList i.date.nextText
  | none => day

theorem nextDayOf_text (d : Date) : nextDayOf (String.ofList d.text) = String.ofList d.nextText := by
  rw [nextDayOf, String.toList_ofList, readInstant_midnight]
  rfl

def datedWeb : WebFilter.Web := { WebFilter.plainWeb with nextDay := nextDayOf }

def datedScript : Script := { plainScript with nextDay := nextDayOf }

theorem datedWeb_calendar : datedWeb.Calendar := ⟨nextDayOf_text⟩

theorem datedScript_calendar : datedScript.Calendar where
  nextDay := nextDayOf_text
  quote text := by simp [datedScript, plainScript]

/-- A list of two days. -/
theorem replaces_days :
    WebFilter.Replaces datedWeb "IN" .oneOf .today [.date eve " 00:00:00"] ∧
      Replaces datedScript "IN" .oneOf .today [.date eve " 00:00:00"] :=
  (replaces_iff datedWeb_calendar datedScript_calendar rfl).mpr (by
    intro value hvalue
    rcases List.mem_pair.mp hvalue with rfl | rfl
    · trivial
    · exact fun _ ↦ by decide)

/-- The range of `NOW()` starts when the query runs, and not with its day. -/
theorem not_replaces_now :
    ¬WebFilter.Replaces datedWeb "=" .eq .now [] ∧ ¬Replaces datedScript "=" .eq .now [] := by
  rw [WebFilter.replaces_iff_agrees datedWeb_calendar rfl,
    replaces_iff_agrees datedScript_calendar rfl, and_self]
  exact not_agrees_now rfl

end ZoneMinder.Filter
