import ZoneMinder.Filter.Ranges
import ZoneMinder.WebFilter.Sql

namespace ZoneMinder.WebFilter

open Lib ZoneMinder.Filter

/-- An expression of the SQL. -/
abbrev Expr := List Piece

variable (web : Web) (term : FilterTerm)

/-- The values that are replaced by a remainder. -/
def isParity (val : Scalar) : Bool := val.looseEq "Odd" || val.looseEq "Even"

def comparators : List (String × Comparator) :=
  [("=", .eq), ("!=", .ne), (">=", .ge), (">", .gt), ("<", .lt), ("<=", .le), ("LIKE", .like),
    ("NOT LIKE", .notLike), ("=~", .regexp), ("!~", .notRegexp)]

def comparatorOf : Option Comparator :=
  match term.op with
  | .text op =>
    if op = "IS" then some (if isParity term.val then .parity else .eq)
    else if op = "IS NOT" then some (if isParity term.val then .notParity else .ne)
    else comparators.lookup op
  | _ => none

/-- `IS` and `IS NOT` stay what they are where the value is `NULL`. -/
def testsNull : Bool :=
  (term.op = .text "IS" || term.op = .text "IS NOT") && !isParity term.val &&
    upper term.val.print = "NULL"

/-- The comparison with a value; none where it is no SQL, or compares nothing. -/
def comparison (value : Expr) : Option (Atom Expr) :=
  if term.attr = "AlarmedZoneId" then
    some (.finds false (leftSql web term ++ [.code " EXISTS "] ++ value))
  else if silentAttr term.attr then none
  else if testsNull term then
    match value with
    | [.keyword keyword] => some (.null (leftSql web term) (term.op = .text "IS NOT") [.keyword keyword])
    | _ => none
  else (comparatorOf term).map (fun comparator ↦ .compare (leftSql web term) comparator value)

def tagQuery : Expr := [.code "EXISTS (SELECT NULL FROM Events_Tags AS ET WHERE ET.EventId = E.Id)"]

def negatesTag : Bool := term.op = .text "!=" || term.op = .text "IS NOT"

def comparisonWords (values : List Expr) : Option (List (Word Expr)) :=
  if values.length > 1 ∧ isListOperator (sqlOperator term) = false then
    (values.mapM (comparison web term)).map (fun atoms ↦
      bracketed (joinedWords .disj (atoms.map (fun atom ↦ [.atom atom]))))
  else if isTag web term values "'0'" then some [.atom (.finds (!negatesTag term) tagQuery)]
  else if isTag web term values "'-1'" then some [.atom (.finds (negatesTag term) tagQuery)]
  else if isListOperator (sqlOperator term) then
    some [.atom (.member (leftSql web term) (sqlOperator term = [.code " NOT IN "]) values)]
  else if values = [] then none
  else (comparison web term (values.headD [])).map (fun atom ↦ [.atom atom])

/-- The words of a date term; the days themselves are compared with `LIKE` only. -/
def dateWords (column : String) (op : String) (values : List Expr) : Option (List (Word Expr)) :=
  if values = [] then none
  else if isNull web values ∧ (op = "IS" ∨ op = "=") then
    some [.atom (.null [.code column] false [.code "NULL"])]
  else if isNull web values ∧ (op = "IS NOT" ∨ op = "!=") then
    some [.atom (.null [.code column] true [.code "NULL"])]
  else if op = "LIKE" then
    some [.atom (.compare [.code ("to_days(" ++ column ++ ")")] .like (values.headD []))]
  else if op = "NOT LIKE" then
    some [.atom (.compare [.code ("to_days(" ++ column ++ ")")] .notLike (values.headD []))]
  else rangeWords [.code column] op (values.map (dateBounds web))

def intervalStart (value : Expr) : Expr :=
  [.code "DATE_SUB("] ++ value ++ [.code ", INTERVAL 1 DAY)"]

/-- The words of a term that asks whether an event still runs. -/
def runningWords (comparator : Comparator) (value : Expr) : List (Word Expr) :=
  bracketed (joinedWords .conj
    [[.atom (.compare [.code "E.StartDateTime"] .ge (intervalStart value))],
      bracketed (joinedWords .disj [[.atom (.null [.code "E.EndDateTime"] false [.code "NULL"])],
        [.atom (.compare [.code "E.EndDateTime"] comparator value)]]),
      [.atom (.compare [.code effectiveEndSql] comparator value)]])

def textOp : Option String :=
  match term.op with
  | .text op => some op
  | _ => none

/-- The condition of a term as the database reads it; none where no listed operator makes SQL of
it, or where it compares nothing. -/
def conditionWords : Option (List (Word Expr)) :=
  match dateColumn term.attr with
  | some column => (textOp term).bind (fun op ↦ dateWords web column op (sqlValues web term))
  | none =>
    if lowerBound term ∧ sqlValues web term ≠ [] then
      (comparatorOf term).map fun comparator ↦
        if (sqlValues web term).length > 1 then
          bracketed (joinedWords .disj ((sqlValues web term).map (runningWords comparator)))
        else runningWords comparator ((sqlValues web term).headD [])
    else comparisonWords web term (sqlValues web term)

section Render

variable {web : Web} {term : FilterTerm} {words words' : List (Word Expr)} {pieces : Expr}
  {value : Expr} {values : List Expr} {atom : Atom Expr}

@[simp] theorem render_nil : render web [] = [] := rfl

@[simp] theorem render_code_cons (text : String) :
    render web (.code text :: pieces) = text.toList ++ render web pieces := rfl

@[simp] theorem render_listed_cons (text : String) :
    render web (.listed text :: pieces) = text.toList ++ render web pieces := rfl

theorem joined_eq (separator : String) (parts : List Expr) :
    joined separator parts = joinedSql Piece.code separator parts := rfl

theorem writer (web : Web) : Writer Piece.code (render web) where
  append := render_append web
  code_cons text _ := render_code_cons text
  nil := rfl

/-- The operator is written as the comparison. -/
theorem render_sqlOperator (hgroup : term.attr ≠ "Group") (hzone : term.attr ≠ "AlarmedZoneId")
    (hsilent : silentAttr term.attr = false) (hnull : testsNull term = false)
    {comparator : Comparator} (h : comparatorOf term = some comparator) :
    render web (sqlOperator term) = (comparatorText comparator).toList := by
  have hattr : ¬silentAttr term.attr = true := by simp [hsilent]
  rw [sqlOperator, if_neg hgroup, if_neg hzone, if_neg hattr]
  rw [comparatorOf] at h
  cases hop : term.op with
  | text op =>
    simp only [hop] at h
    have hparity : (term.val.looseEq "Odd" ∨ term.val.looseEq "Even") ↔ isParity term.val := by
      simp [isParity]
    by_cases his : op = "IS"
    · subst his
      by_cases hval : isParity term.val
      · obtain rfl : .parity = comparator := by simpa [hval] using h
        simp [hparity, hval, comparatorText]
      · have hupper : upper term.val.print ≠ "NULL" := by simpa [testsNull, hop, hval] using hnull
        obtain rfl : .eq = comparator := by simpa [hval] using h
        simp [hparity, hval, hupper, comparatorText]
    · by_cases hisNot : op = "IS NOT"
      · subst hisNot
        by_cases hval : isParity term.val
        · obtain rfl : .notParity = comparator := by simpa [hval] using h
          simp [hparity, hval, comparatorText]
        · have hupper : upper term.val.print ≠ "NULL" := by simpa [testsNull, hop, hval] using hnull
          obtain rfl : .ne = comparator := by simpa [hval] using h
          simp [hparity, hval, hupper, comparatorText]
      · rw [if_neg his, if_neg hisNot] at h
        have hlisted := mem_of_lookup h
        simp only [comparators, List.mem_cons, List.not_mem_nil, or_false, Prod.mk.injEq] at hlisted
        rcases hlisted with ⟨rfl, rfl⟩ | ⟨rfl, rfl⟩ | ⟨rfl, rfl⟩ | ⟨rfl, rfl⟩ | ⟨rfl, rfl⟩ |
          ⟨rfl, rfl⟩ | ⟨rfl, rfl⟩ | ⟨rfl, rfl⟩ | ⟨rfl, rfl⟩ | ⟨rfl, rfl⟩ <;> simp [comparatorText]
  | yes => simp [hop] at h
  | integer n => simp [hop] at h
  | no => simp [hop] at h

theorem render_comparison (hgroup : term.attr ≠ "Group")
    (h : comparison web term value = some atom) :
    render web (atomSql Piece.code atom) = render web (leftSql web term ++ sqlOperator term ++ value) := by
  unfold comparison at h
  by_cases hzone : term.attr = "AlarmedZoneId"
  · rw [if_pos hzone] at h
    obtain rfl := Option.some.inj h
    simp [atomSql, sqlOperator, hzone, render_append]
  rw [if_neg hzone] at h
  by_cases hsilent : silentAttr term.attr
  · simp [hsilent] at h
  rw [if_neg hsilent] at h
  by_cases hnull : testsNull term
  · rw [if_pos hnull] at h
    split at h
    · next keyword =>
      obtain rfl := Option.some.inj h
      simp only [testsNull, Bool.and_eq_true, Bool.or_eq_true, decide_eq_true_eq,
        Bool.not_eq_true', isParity, Bool.or_eq_false_iff] at hnull
      obtain ⟨⟨hop, hodd, heven⟩, hupper⟩ := hnull
      rcases hop with hop | hop <;>
        simp [atomSql, sqlOperator, hop, hgroup, hzone, hsilent, hodd, heven, hupper, render_append]
    · cases h
  · rw [if_neg hnull] at h
    obtain ⟨comparator, hcomparator, rfl⟩ := Option.map_eq_some_iff.mp h
    have hoperator := @render_sqlOperator web term hgroup hzone (by simpa using hsilent)
      (by simpa using hnull) comparator hcomparator
    simp [atomSql, render_append, hoperator]

theorem isListOperator_iff (operator : Expr) :
    isListOperator operator ↔ operator = [.code " IN "] ∨ operator = [.code " NOT IN "] := by
  simp [isListOperator]

theorem ne_group_of_not_listOperator (h : isListOperator (sqlOperator term) = false) :
    term.attr ≠ "Group" := by
  intro hgroup
  simp [sqlOperator, hgroup, isListOperator] at h

theorem render_comparisons (hgroup : term.attr ≠ "Group") {atoms : List (Atom Expr)}
    (h : values.mapM (comparison web term) = some atoms) :
    List.Forall₂ (fun part part' ↦ render web part = render web part')
      (atoms.map (atomSql Piece.code))
      (values.map (fun value ↦ leftSql web term ++ sqlOperator term ++ value)) := by
  rw [List.forall₂_map_left_iff, List.forall₂_map_right_iff]
  induction values generalizing atoms with
  | nil =>
    obtain rfl : [] = atoms := Option.some.inj h
    exact .nil
  | cons value values ih =>
    rw [List.mapM_cons] at h
    obtain ⟨atom, hatom, h⟩ := Option.bind_eq_some_iff.mp h
    obtain ⟨rest, hrest, h⟩ := Option.bind_eq_some_iff.mp h
    obtain rfl := Option.some.inj h
    exact .cons (render_comparison hgroup hatom) (ih hrest)

theorem render_comparisonWords (h : comparisonWords web term values = some words) :
    render web (wordsSql Piece.code words) =
      render web (comparisonSql web term (sqlOperator term) values) := by
  have htag : negatesTag term = (term.op = .text "!=" || term.op = .text "IS NOT") := rfl
  rw [comparisonWords] at h
  rw [comparisonSql]
  split_ifs at h with hseveral hnone hany hlist hempty
  · rw [if_pos hseveral]
    obtain ⟨atoms, hatoms, rfl⟩ := Option.map_eq_some_iff.mp h
    have hgroup := ne_group_of_not_listOperator hseveral.2
    have hparts := (writer web).joinedSql_congr " OR " (render_comparisons hgroup hatoms)
    have hjoined := @wordsSql_joinedWords _ Piece.code .disj " OR " rfl (atoms.map (fun atom ↦ [.atom atom]))
    rw [List.map_map] at hjoined
    have hsingle : (wordsSql Piece.code ∘ fun atom ↦ [Word.atom atom]) = atomSql Piece.code := funext wordsSql_atom
    rw [hsingle] at hjoined
    rw [joined_eq, wordsSql_bracketed, hjoined, render_append, render_append, hparts, ← render_append,
      ← render_append]
  · rw [if_neg hseveral, if_pos hnone, ← htag]
    obtain rfl := Option.some.inj h
    cases negatesTag term <;> simp [atomSql, tagQuery, tagged]
  · rw [if_neg hseveral, if_neg hnone, if_pos hany, ← htag]
    obtain rfl := Option.some.inj h
    cases negatesTag term <;> simp [atomSql, tagQuery, tagged]
  · rw [if_neg hseveral, if_neg hnone, if_neg hany, if_pos hlist]
    obtain rfl := Option.some.inj h
    rcases (isListOperator_iff _).mp hlist with hoperator | hoperator <;>
      simp [atomSql, hoperator, listSql, joined_eq]
  · rw [if_neg hseveral, if_neg hnone, if_neg hany, if_neg hlist]
    obtain ⟨atom, hatom, rfl⟩ := Option.map_eq_some_iff.mp h
    have hgroup := ne_group_of_not_listOperator (by simpa using hlist)
    rw [wordsSql_atom]
    exact render_comparison hgroup hatom

/-- The range is written as the words for it. -/
theorem dateRangeSql_eq {column op : String} (hvalues : values ≠ [])
    (hop : (rangeOps.lookup op).isSome)
    (hnull : ¬(isNull web values ∧ (op = "IS" ∨ op = "=")))
    (hnotNull : ¬(isNull web values ∧ (op = "IS NOT" ∨ op = "!="))) :
    dateRangeSql web column (.text op) values =
      rangeSql Piece.code column op (values.map (dateBounds web)) := by
  have hhead : (values.map (dateBounds web)).headD ([], []) =
      dateBounds web (values.headD []) := by
    cases values with
    | nil => exact absurd rfl hvalues
    | cons value values => rfl
  obtain ⟨r, hr⟩ := Option.isSome_iff_exists.mp hop
  have hlisted := mem_of_lookup hr
  simp only [rangeOps, List.mem_cons, List.not_mem_nil, or_false, Prod.mk.injEq] at hlisted
  simp only [dateRangeSql, Scalar.text.injEq, if_neg hnull, if_neg hnotNull, rangeSql, hhead,
    List.map_map]
  rcases hlisted with ⟨rfl, -⟩ | ⟨rfl, -⟩ | ⟨rfl, -⟩ | ⟨rfl, -⟩ | ⟨rfl, -⟩ | ⟨rfl, -⟩ | ⟨rfl, -⟩ |
    ⟨rfl, -⟩ | ⟨rfl, -⟩ | ⟨rfl, -⟩ | ⟨rfl, -⟩ | ⟨rfl, -⟩ <;> rfl

theorem render_dateWords {column op : String} (h : dateWords web column op values = some words) :
    render web (wordsSql Piece.code words) = render web (dateRangeSql web column (.text op) values) := by
  rw [dateWords] at h
  split_ifs at h with hvalues hnull hnotNull hlike hnotLike
  · obtain rfl := Option.some.inj h
    simp [dateRangeSql, hnull, atomSql]
  · obtain rfl := Option.some.inj h
    obtain ⟨hisNull, rfl | rfl⟩ := hnotNull <;> simp [dateRangeSql, hisNull, atomSql]
  · obtain rfl := Option.some.inj h
    subst hlike
    simp [dateRangeSql, Scalar.looseEq, Scalar.print, atomSql, comparatorText]
  · obtain rfl := Option.some.inj h
    subst hnotLike
    simp [dateRangeSql, Scalar.looseEq, Scalar.print, atomSql, comparatorText]
  · rw [dateRangeSql_eq hvalues (isSome_of_rangeWords (Option.isSome_of_mem h)) hnull hnotNull]
    exact (writer web).rangeWords h

theorem render_runningWords {comparator : Comparator} {operator : Expr}
    (hoperator : render web operator = (comparatorText comparator).toList) (value : Expr) :
    render web (wordsSql Piece.code (runningWords comparator value)) =
      render web (stillRunning operator value) := by
  have hor := @wordsSql_joinedWords _ Piece.code .disj " OR " rfl
  have hand := @wordsSql_joinedWords _ Piece.code .conj " AND " rfl
  have hthree (a b c : Expr) : joinedSql Piece.code " AND " [a, b, c] =
      a ++ [.code " AND "] ++ b ++ [.code " AND "] ++ c := by simp [joinedSql]
  simp [runningWords, hor, hand, hthree, joinedSql_pair, atomSql, comparatorText, intervalStart,
    stillRunning, render_append, hoperator]

theorem op_of_textOp {op : String} (h : textOp term = some op) : term.op = .text op := by
  rw [textOp] at h
  split at h
  · next hop =>
    obtain rfl := Option.some.inj h
    exact hop
  · cases h

theorem attr_of_lowerBound (h : lowerBound term) :
    term.attr = "DateTime" ∧ testsNull term = false := by
  rw [lowerBound, Bool.and_eq_true, decide_eq_true_eq] at h
  refine ⟨h.1, ?_⟩
  have hop : term.op ≠ .text "IS" ∧ term.op ≠ .text "IS NOT" := by
    constructor
    · intro hop
      simp [hop, Scalar.looseEq] at h
    · intro hop
      simp [hop, Scalar.looseEq] at h
  simp [testsNull, hop]

/-- Whatever its operator, a group term asks whether a monitor is in a list. -/
theorem conditionWords_group (h : term.attr = "Group") :
    conditionWords web term =
      some [.atom (.member (leftSql web term) false (sqlValues web term))] := by
  have hcolumn : dateColumn term.attr = none := by simp [dateColumn, h]
  have hlower : lowerBound term = false := by simp [lowerBound, h]
  have hoperator : sqlOperator term = [.code " IN "] := by simp [sqlOperator, h]
  have htag (literal : String) : isTag web term (sqlValues web term) literal = false := by
    simp [isTag, h]
  unfold conditionWords
  rw [hcolumn]
  simp [hlower, comparisonWords, hoperator, htag, isListOperator]

/-- The words say what the SQL says. -/
theorem render_conditionWords (h : conditionWords web term = some words) :
    render web (wordsSql Piece.code words) = render web (conditionSql web term) := by
  unfold conditionWords at h
  unfold conditionSql
  cases hcolumn : dateColumn term.attr with
  | some column =>
    rw [hcolumn] at h
    obtain ⟨op, hop, hwords⟩ := Option.bind_eq_some_iff.mp h
    rw [op_of_textOp hop]
    exact render_dateWords hwords
  | none =>
    simp only [hcolumn] at h
    by_cases hrunning : lowerBound term ∧ sqlValues web term ≠ []
    · rw [if_pos hrunning] at h
      obtain ⟨comparator, hcomparator, rfl⟩ := Option.map_eq_some_iff.mp h
      obtain ⟨hattr, hnull⟩ := attr_of_lowerBound hrunning.1
      have hoperator : render web (sqlOperator term) = (comparatorText comparator).toList :=
        render_sqlOperator (by simp [hattr]) (by simp [hattr]) (by simp [hattr, silentAttr]) hnull
          hcomparator
      have hor := @wordsSql_joinedWords _ Piece.code .disj " OR " rfl
      simp only [if_pos hrunning]
      split_ifs with hseveral
      · rw [wordsSql_bracketed, hor, List.map_map, render_append, render_append, render_append,
          render_append]
        congr 2
        apply (writer web).joinedSql_congr
        rw [List.forall₂_map_left_iff, List.forall₂_map_right_iff, List.forall₂_same]
        intro value _
        exact render_runningWords hoperator value
      · exact render_runningWords hoperator _
    · rw [if_neg hrunning] at h
      simp only [if_neg hrunning]
      exact render_comparisonWords h

end Render

end ZoneMinder.WebFilter
