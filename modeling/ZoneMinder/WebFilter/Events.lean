import ZoneMinder.WebFilter.Injection

namespace ZoneMinder.WebFilter

/-- What the terms are tested on: how full the first storage area is, and which events have files. -/
structure Site (ε : Type) where
  diskTest : FilterTerm → Bool
  fileExists : ε → Bool

variable {ε : Type} (site : Site ε) (terms : List FilterTerm) (limit : ℤ)

def isPreSql (term : FilterTerm) : Bool := term.attr = "DiskPercent" || term.attr = "DiskBlocks"

def isPostSql (term : FilterTerm) : Bool := term.attr = "ExistsInFileSystem"

/-- `test()` without an event. -/
def Site.test (term : FilterTerm) : Bool := term.attr = "DiskPercent" && site.diskTest term

/-- `test($event)`; every operator but the two asks for a missing file. -/
def Site.testEvent (event : ε) (term : FilterTerm) : Bool :=
  if term.attr = "ExistsInFileSystem" then
    if term.op.looseEq "IS" ∧ term.val.looseEq "true" ∨
        term.op.looseEq "IS NOT" ∧ term.val.looseEq "false" then
      site.fileExists event
    else !site.fileExists event
  else false

def preSqlConditions : List FilterTerm := terms.filter (fun term ↦ isPreSql term && valid term)

def postSqlConditions : List FilterTerm := terms.filter (fun term ↦ isPostSql term && valid term)

def testPreSqlConditions : Bool := (preSqlConditions terms).all site.test

def testPostSqlConditions (event : ε) : Bool := (postSqlConditions terms).all (site.testEvent event)

/-- `LIMIT` is part of the query only without conditions that SQL cannot test. -/
def limitedSql : Bool :=
  limit ≠ 0 && (preSqlConditions terms).isEmpty && (postSqlConditions terms).isEmpty

/-- The rows that the database gives of those that match, in their order; a negative `LIMIT` is
an error. -/
def query (rows : List ε) : Option (List ε) :=
  if limitedSql terms limit then if limit < 0 then none else some (rows.take limit.toNat)
  else some rows

/-- The loop over the rows, with the events so far. -/
def fetchEvents : List ε → List ε → List ε
  | events, [] => events
  | events, row :: rows =>
    if testPostSqlConditions site terms row = false then fetchEvents events rows
    else if limit ≠ 0 ∧ limit < ((events ++ [row]).length : ℤ) then events ++ [row]
    else fetchEvents (events ++ [row]) rows

def events (rows : List ε) : List ε :=
  if testPreSqlConditions site terms = false then []
  else
    match query terms limit rows with
    | some rows => fetchEvents site terms limit [] rows
    | none => []

/-- The rows of the query; where a condition before it fails there is none. -/
def resultRows (rows : List ε) : List ε := if testPreSqlConditions site terms then rows else []

/-- The events are the first of those rows that the conditions after the query let through. -/
def LimitsExactly (rows : List ε) : Prop :=
  events site terms limit rows =
    ((resultRows site terms rows).filter (testPostSqlConditions site terms)).take limit.toNat

variable {site terms limit} {rows : List ε}

/-- The loop stops only after one event too many. -/
theorem fetchEvents_eq (hlimit : 0 < limit) (found rows : List ε) (h : (found.length : ℤ) ≤ limit) :
    fetchEvents site terms limit found rows =
      (found ++ rows.filter (testPostSqlConditions site terms)).take (limit.toNat + 1) := by
  induction rows generalizing found with
  | nil =>
    have hlength : found.length ≤ limit.toNat + 1 := by omega
    simp [fetchEvents, List.take_of_length_le hlength]
  | cons row rows ih =>
    rw [fetchEvents]
    cases hpost : testPostSqlConditions site terms row with
    | false =>
      rw [if_pos rfl, ih found h, List.filter_cons_of_neg (by simp [hpost])]
    | true =>
      rw [if_neg (by simp), List.filter_cons_of_pos hpost]
      have happend : found ++ row :: rows.filter (testPostSqlConditions site terms) =
          (found ++ [row]) ++ rows.filter (testPostSqlConditions site terms) := by simp
      rw [happend]
      split_ifs with hfull
      · have hlength : (found ++ [row]).length = limit.toNat + 1 := by
          rw [List.length_append, List.length_singleton] at hfull ⊢
          omega
        rw [← hlength, List.take_left]
      · apply ih
        have hpositive : limit ≠ 0 := by omega
        exact not_lt.mp fun hlt ↦ hfull ⟨hpositive, hlt⟩

theorem testPostSqlConditions_of_none (h : postSqlConditions terms = []) (event : ε) :
    testPostSqlConditions site terms event = true := by
  rw [testPostSqlConditions, h]
  rfl

theorem testPreSqlConditions_of_none (h : preSqlConditions terms = []) :
    testPreSqlConditions site terms = true := by
  rw [testPreSqlConditions, h]
  rfl

/-- In SQL the limit is exact. -/
theorem events_of_limitedSql (hlimit : 0 < limit) (h : limitedSql terms limit) :
    events site terms limit rows = rows.take limit.toNat := by
  have hnone : preSqlConditions terms = [] ∧ postSqlConditions terms = [] := by
    simpa [limitedSql, hlimit.ne'] using h
  have hquery : query terms limit rows = some (rows.take limit.toNat) := by
    rw [query, if_pos h, if_neg (by omega)]
  have hall : (rows.take limit.toNat).filter (testPostSqlConditions site terms) =
      rows.take limit.toNat :=
    List.filter_eq_self.mpr fun event _ ↦ testPostSqlConditions_of_none hnone.2 event
  have hlength : (rows.take limit.toNat).length ≤ limit.toNat + 1 :=
    (List.length_take_le _ _).trans (Nat.le_succ _)
  rw [events, testPreSqlConditions_of_none hnone.1, if_neg (by simp), hquery]
  simp only
  rw [fetchEvents_eq hlimit [] _ (by simpa using hlimit.le), List.nil_append, hall,
    List.take_of_length_le hlength]

/-- In the loop it is one more. -/
theorem events_of_loop (hlimit : 0 < limit) (hpre : testPreSqlConditions site terms)
    (h : limitedSql terms limit = false) :
    events site terms limit rows =
      (rows.filter (testPostSqlConditions site terms)).take (limit.toNat + 1) := by
  have hquery : query terms limit rows = some rows := by
    rw [query, if_neg (by simp [h])]
  rw [events, hpre, if_neg (by simp), hquery]
  exact fetchEvents_eq hlimit [] rows (by simpa using hlimit.le)

theorem limitsExactly_iff (hlimit : 0 < limit) :
    LimitsExactly site terms limit rows ↔
      (preSqlConditions terms = [] ∧ postSqlConditions terms = []) ∨
        testPreSqlConditions site terms = false ∨
        ((rows.filter (testPostSqlConditions site terms)).length : ℤ) ≤ limit := by
  have hlimited : limitedSql terms limit ↔
      preSqlConditions terms = [] ∧ postSqlConditions terms = [] := by
    simp [limitedSql, hlimit.ne']
  rw [LimitsExactly, resultRows, ← hlimited]
  cases hpre : testPreSqlConditions site terms with
  | false => simp [events, hpre]
  | true =>
    rw [if_pos rfl]
    cases hsql : limitedSql terms limit with
    | true =>
      have hnone := (hlimited.mp hsql).2
      have hall : rows.filter (testPostSqlConditions site terms) = rows :=
        List.filter_eq_self.mpr fun event _ ↦ testPostSqlConditions_of_none hnone event
      simp [events_of_limitedSql hlimit hsql, hall]
    | false =>
      rw [events_of_loop hlimit hpre hsql]
      simp only [Bool.false_eq_true, reduceCtorEq, false_or]
      constructor
      · intro h
        have hlength := congrArg List.length h
        rw [List.length_take, List.length_take] at hlength
        omega
      · intro h
        rw [List.take_of_length_le (by omega), List.take_of_length_le (by omega)]

/-- Only the first event has no files. -/
def missingFirst : Site ℕ := ⟨fun _ ↦ true, fun event ↦ event ≠ 1⟩

def existsTerm : FilterTerm :=
  construct plainWeb (oneTerm "ExistsInFileSystem" "IS" (.text "true"))

theorem limitsExactly_two : LimitsExactly missingFirst [existsTerm] 2 [1, 2, 3] :=
  (limitsExactly_iff (by decide)).mpr (.inr (.inr (by decide +kernel)))

theorem not_limitsExactly : ¬LimitsExactly missingFirst [existsTerm] 2 [1, 2, 3, 4] := by
  have hevents : events missingFirst [existsTerm] 2 [1, 2, 3, 4] = [2, 3, 4] := by decide +kernel
  have hfirst : ((resultRows missingFirst [existsTerm] [1, 2, 3, 4]).filter
      (testPostSqlConditions missingFirst [existsTerm])).take (2 : ℤ).toNat = [2, 3] := by
    decide +kernel
  rw [LimitsExactly, hevents, hfirst]
  decide

end ZoneMinder.WebFilter
