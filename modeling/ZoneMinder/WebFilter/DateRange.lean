import ZoneMinder.Filter.Days
import ZoneMinder.WebFilter.Predicates

namespace ZoneMinder.WebFilter

open Lib ZoneMinder.Filter

/-- A value of a date term in the SQL. -/
def dayPieces : DayValue → Expr
  | .date d time => [.date (String.ofList d.text ++ time)]
  | .today => [.keyword "CURDATE()"]
  | .now => [.keyword "NOW()"]

/-- What the database makes of the column and of the bounds that a range compares it with. -/
def instantOf (clock : Instant) (column : Option Instant) : Expr → Option Instant
  | [.code _] => column
  | [.date text] => readInstant text.toList
  | [.keyword text] => if text = "NOW()" then some clock else some (.midnight clock.date)
  | [.keyword text, .code _] =>
    if text = "NOW()" then clock.tomorrow else clock.date.next.map .midnight
  | _ => none

def dateRow (clock : Instant) (column : Option Instant) : Row Expr Instant where
  datum := instantOf clock column
  eq a b := a = b
  lt a b := a < b
  like _ _ := false
  regexp _ _ := false
  parity _ _ := false
  finds _ := false

/-- The date functions know the calendar. -/
structure Web.Calendar (web : Web) : Prop where
  nextDay : ∀ d : Date, web.nextDay (String.ofList d.text) = String.ofList d.nextText

/-- Whenever the query runs but on the last day of the calendar, and whatever a column holds, the
fragment is one operand with the truth of the comparison of days. -/
def Replaces (web : Web) (op : String) (r : RangeOp) (first : DayValue) (rest : List DayValue) :
    Prop :=
  ∀ clock : Instant, clock.date.next.isSome → ∀ (column : Option Instant) (name : String),
    ∃ words, dateWords web name op ((first :: rest).map dayPieces) = some words ∧
      render web (wordsSql Piece.code words) =
        render web (dateRangeSql web name (.text op) ((first :: rest).map dayPieces)) ∧
      StandsFor (dateRow clock column) words
        (r.daysTruth column ((first :: rest).map (DayValue.day clock)))

variable {web : Web} {clock : Instant} {column : Option Instant} {value first : DayValue}
  {rest : List DayValue} {op : String} {r : RangeOp} {d : Date}

theorem dayOf_text (d : Date) (time : String) :
    dayOf (String.ofList d.text ++ time) = some (String.ofList d.text) := by
  have htake : (String.ofList d.text ++ time).toList.take 10 = d.text := by
    rw [String.toList_append, String.toList_ofList]
    exact List.take_left' rfl
  have hdigits := d.text_digits
  have hdash : d.text[4]? = some '-' ∧ d.text[7]? = some '-' ∧ d.text.length = 10 := ⟨rfl, rfl, rfl⟩
  simp only [dayOf, htake, List.all_eq_true]
  rw [if_pos ⟨hdash.2.2, hdash.1, hdash.2.1, hdigits.1, hdigits.2⟩]

theorem dateRow_bounded (hcalendar : web.Calendar) (value : DayValue) :
    Bounded (dateRow clock column) clock (dateBounds web (dayPieces value)) value := by
  cases value with
  | date d time =>
    have hbounds : dateBounds web (dayPieces (.date d time)) =
        ([.date (String.ofList d.text ++ " 00:00:00")], [.date (String.ofList d.nextText)]) := by
      simp only [dayPieces, dateBounds, dayOf_text, hcalendar.nextDay]
    rw [hbounds]
    constructor
    · simp only [dateRow, instantOf, String.toList_append, String.toList_ofList]
      exact readInstant_midnight d
    · simp only [dateRow, instantOf, String.toList_ofList]
      exact readInstant_nextText d
  | today => exact ⟨rfl, rfl⟩
  | now => exact ⟨rfl, rfl⟩

theorem isNull_dayPieces (values : List DayValue) : isNull web (values.map dayPieces) = false := by
  cases values with
  | nil => rfl
  | cons value values =>
    have htoday : render web (dayPieces .today) = "CURDATE()".toList := by
      simp [dayPieces, render, Piece.render]
    have hnow : render web (dayPieces .now) = "NOW()".toList := by
      simp [dayPieces, render, Piece.render]
    have hupper : upper (String.ofList (render web (dayPieces value))) ≠ "NULL" := by
      intro h
      have htext := congrArg String.toList h
      rw [upper, String.toList_ofList, String.toList_ofList] at htext
      cases value with
      | date d time => exact absurd (List.head_eq_of_cons_eq htext) (by decide)
      | today => exact absurd (htoday ▸ htext) (by decide)
      | now => exact absurd (hnow ▸ htext) (by decide)
    simp [isNull, hupper]

/-- A listed operator is neither `LIKE` nor a test for `NULL`. -/
theorem dateWords_eq (hop : rangeOps.lookup op = some r) (name : String) :
    dateWords web name op ((first :: rest).map dayPieces) =
      rangeWords [.code name] op (((first :: rest).map dayPieces).map (dateBounds web)) := by
  have hlike : op ≠ "LIKE" ∧ op ≠ "NOT LIKE" := by
    constructor
    · rintro rfl
      cases hop
    · rintro rfl
      cases hop
  have hne : (first :: rest).map dayPieces ≠ [] := List.cons_ne_nil _ _
  simp only [dateWords, isNull_dayPieces, if_neg hne, if_neg hlike.1, if_neg hlike.2]
  simp

theorem replaces_iff_agrees (hcalendar : web.Calendar) (hop : rangeOps.lookup op = some r) :
    Replaces web op r first rest ↔ r.Agrees first rest := by
  refine standsFor_iff_agrees (fun name words ↦ render_dateWords) fun clock column name ↦ ?_
  rw [dateWords_eq hop]
  refine @isOperand_rangeWords _ (dateRow clock column) clock [.code name] ⟨rfl⟩ op r hop _ _ _ ?_
  rw [List.map_map, List.forall₂_map_left_iff, List.forall₂_same]
  exact fun value _ ↦ dateRow_bounded hcalendar value

end ZoneMinder.WebFilter
