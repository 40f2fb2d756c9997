import ZoneMinder.WebFilter.Injection
import ZoneMinder.WebFilter.Predicates

namespace ZoneMinder.WebFilter

open Lib

variable {δ : Type}

/-- The operators that come with a negation. -/
inductive Pair
  | equal
  | is
  | like
  | regexp
  | isIn
  | any
  deriving DecidableEq

def Pair.op : Pair → Bool → String
  | equal, negated => if negated then "!=" else "="
  | is, negated => if negated then "IS NOT" else "IS"
  | like, negated => if negated then "NOT LIKE" else "LIKE"
  | regexp, negated => if negated then "!~" else "=~"
  | isIn, negated => if negated then "NOT IN" else "IN"
  | any, negated => if negated then "![]" else "=[]"

def Pair.isList : Pair → Bool
  | isIn => true
  | any => true
  | _ => false

theorem Pair.op_mem (pair : Pair) (negated : Bool) : pair.op negated ∈ validOps := by
  cases pair <;> cases negated <;> decide

/-- A term with the operator or its negation. -/
def FilterTerm.paired (term : FilterTerm) (pair : Pair) (negated : Bool) : FilterTerm :=
  { term with
    op := .text (pair.op negated)
    op_valid := List.any_eq_true.mpr
      ⟨pair.op negated, pair.op_mem negated, by simp [Scalar.looseEq]⟩ }

/-- The negation is true exactly where the operator itself is false. -/
def Negates (web : Web) (row : Row Expr δ) (term : FilterTerm) (pair : Pair) : Prop :=
  ∃ words, conditionWords web (term.paired pair false) = some words ∧
    ∃ words', conditionWords web (term.paired pair true) = some words' ∧
      (truth row words' = some .yes ↔ truth row words = some .no)

/-- What a term compares. -/
def subject (web : Web) (term : FilterTerm) : Expr :=
  match dateColumn term.attr with
  | some column => [.code column]
  | none => leftSql web term

/-- The special tags know two operators, several values are joined by `or`, and neither a group
nor a quoted `NULL` nor the day of a date is negated. -/
def Negatable (web : Web) (row : Row Expr δ) (term : FilterTerm) (pair : Pair) : Prop :=
  let values := sqlValues web (term.paired pair false)
  term.attr ≠ "Group" ∧
    if (dateColumn term.attr).isSome then pair ≠ .regexp
    else if values.length > 1 ∧ pair.isList = false then
      ∀ comparator ∈ comparatorOf (term.paired pair false), ∀ value ∈ values, ∀ value' ∈ values,
        (Atom.compare (leftSql web term) comparator value).truth row =
          (Atom.compare (leftSql web term) comparator value').truth row
    else if isTag web term values "'0'" ∨ isTag web term values "'-1'" then
      pair = .equal ∨ pair = .is
    else ¬(testsNull (term.paired pair false) ∧ textAttr term.attr)

variable {web : Web} {row : Row Expr δ} {term : FilterTerm} {pair : Pair} {negated : Bool}
  {value : Expr} {values : List Expr} {words words' : List (Word Expr)}

/-- Conditions of which one is the negation of the other. -/
def Opposed (row : Row Expr δ) (words words' : List (Word Expr)) : Prop :=
  ∃ value, IsOperand (signs row words) value ∧ IsOperand (signs row words') value.neg

theorem Opposed.negates (h : Opposed row words words') :
    truth row words' = some .yes ↔ truth row words = some .no := by
  obtain ⟨value, hwords, hwords'⟩ := h
  rw [truth_of_isOperand hwords, truth_of_isOperand hwords', Option.some.injEq, Option.some.injEq]
  exact Ternary.neg_eq_yes_iff value

theorem opposed_atom (atom : Atom Expr) : Opposed row [.atom atom] [.atom atom.opposite] := by
  refine ⟨atom.truth row, isOperand_atom atom, ?_⟩
  rw [← truth_opposite]
  exact isOperand_atom atom.opposite

theorem sqlValues_paired (pair : Pair) (negated : Bool) :
    sqlValues web (term.paired pair negated) = sqlValues web (term.paired pair false) := by
  have hlike : isLike (term.paired pair negated).op = isLike (term.paired pair false).op := by
    cases pair <;> cases negated <;> rfl
  have hvalue : sqlValue web (term.paired pair negated) = sqlValue web (term.paired pair false) := by
    funext value
    simp only [sqlValue, hlike]
    rfl
  simp only [sqlValues, hvalue]
  rfl

theorem comparatorOf_paired (h : pair.isList = false) :
    comparatorOf (term.paired pair true) =
      (comparatorOf (term.paired pair false)).map Comparator.opposite ∧
      (comparatorOf (term.paired pair false)).isSome := by
  cases pair with
  | is => cases hparity : isParity term.val <;> simp [comparatorOf, FilterTerm.paired, Pair.op,
      hparity, Comparator.opposite]
  | isIn => cases h
  | any => cases h
  | equal => exact ⟨rfl, rfl⟩
  | like => exact ⟨rfl, rfl⟩
  | regexp => exact ⟨rfl, rfl⟩

theorem testsNull_paired : testsNull (term.paired pair true) = testsNull (term.paired pair false) := by
  cases pair <;> rfl

theorem pair_of_testsNull (h : testsNull (term.paired pair false)) : pair = .is := by
  cases pair <;> first | rfl | simp [testsNull, FilterTerm.paired, Pair.op] at h

theorem comparison_paired (hzone : term.attr ≠ "AlarmedZoneId") (h : pair.isList = false) :
    comparison web (term.paired pair true) value =
      (comparison web (term.paired pair false) value).map Atom.opposite := by
  have hattr (negated : Bool) : (term.paired pair negated).attr = term.attr := rfl
  have hleft (negated : Bool) : leftSql web (term.paired pair negated) = leftSql web term := rfl
  unfold comparison
  simp only [hattr, hleft, if_neg hzone, testsNull_paired]
  by_cases hsilent : silentAttr term.attr
  · simp [hsilent]
  rw [if_neg hsilent, if_neg hsilent]
  by_cases hnull : testsNull (term.paired pair false)
  · rw [if_pos hnull, if_pos hnull]
    obtain rfl := pair_of_testsNull hnull
    split
    · simp [FilterTerm.paired, Pair.op, Atom.opposite]
    · rfl
  · rw [if_neg hnull, if_neg hnull, (comparatorOf_paired h).1, Option.map_map, Option.map_map]
    rfl

section Dates

variable {column : Expr} {bounds : Expr × Expr} {ranges : List (Expr × Expr)}

theorem opposed_within (row : Row Expr δ) (column : Expr) (bounds : Expr × Expr) :
    Opposed row (Filter.withinWords column bounds) (Filter.outsideWords column bounds) :=
  ⟨_, Filter.isOperand_within row column bounds, Filter.isOperand_outside row column bounds⟩

theorem opposed_ranges (row : Row Expr δ) (column : Expr) (hranges : ranges ≠ []) :
    Opposed row
      (bracketed (joinedWords .disj (ranges.map fun b ↦ bracketed (Filter.withinWords column b))))
      (bracketed (joinedWords .conj (ranges.map (Filter.outsideWords column)))) := by
  choose value hwithin houtside using opposed_within row column
  refine ⟨.disjs (ranges.map value), ?_, ?_⟩
  · apply isOperand_disjoined
    · rw [List.forall₂_map_left_iff, List.forall₂_map_right_iff, List.forall₂_same]
      intro b _
      exact isOperand_bracketed (hwithin b)
    · simpa using hranges
  · rw [Ternary.neg_disjs, List.map_map]
    apply isOperand_conjoinedAll
    · rw [List.forall₂_map_left_iff, List.forall₂_map_right_iff, List.forall₂_same]
      intro b _
      exact houtside b
    · simpa using hranges

theorem dateWords_paired (row : Row Expr δ) (column : String) (hvalues : values ≠ [])
    (h : pair ≠ .regexp) :
    ∃ words, dateWords web column (pair.op false) values = some words ∧
      ∃ words', dateWords web column (pair.op true) values = some words' ∧
        Opposed row words words' := by
  have hranges : values.map (dateBounds web) ≠ [] := by simpa using hvalues
  have hhead : (values.map (dateBounds web)).head? = some (dateBounds web (values.headD [])) := by
    cases values with
    | nil => exact absurd rfl hvalues
    | cons value values => rfl
  have hrange := opposed_within row [.code column] (dateBounds web (values.headD []))
  have hrangeList := opposed_ranges row [.code column] hranges
  have hnulls : Opposed row [.atom (.null [.code column] false [.code "NULL"])]
      [.atom (.null [.code column] true [.code "NULL"])] := opposed_atom _
  have hlike : Opposed row
      [.atom (.compare [.code ("to_days(" ++ column ++ ")")] .like (values.headD []))]
      [.atom (.compare [.code ("to_days(" ++ column ++ ")")] .notLike (values.headD []))] :=
    opposed_atom _
  cases pair with
  | regexp => exact absurd rfl h
  | equal | is =>
    cases hnull : isNull web values with
    | true =>
      refine ⟨_, ?_, _, ?_, hnulls⟩ <;> simp [dateWords, Pair.op, hvalues, hnull]
    | false =>
      refine ⟨_, ?_, _, ?_, hrange⟩ <;>
        simp [dateWords, Filter.rangeWords, Pair.op, hvalues, hnull, hhead]
  | like => refine ⟨_, ?_, _, ?_, hlike⟩ <;> simp [dateWords, Pair.op, hvalues]
  | isIn | any =>
    refine ⟨_, ?_, _, ?_, hrangeList⟩ <;>
      simp [dateWords, Filter.rangeWords, Pair.op, hvalues]

/-- The database has no such operators for the number of a day. -/
theorem dateWords_regexp (column : String) (values : List Expr) :
    dateWords web column "=~" values = none := by
  cases values with
  | nil => simp [dateWords]
  | cons value values => simp [dateWords, Filter.rangeWords]

end Dates

section Comparisons

variable (hzone : term.attr ≠ "AlarmedZoneId") (hsilent : silentAttr term.attr = false)
  (hgroup : term.attr ≠ "Group")

include hzone hsilent hgroup

theorem sqlOperator_list (h : pair.isList) :
    sqlOperator (term.paired pair negated) = [.code (if negated then " NOT IN " else " IN ")] := by
  cases pair with
  | isIn | any =>
    cases negated <;> simp [sqlOperator, FilterTerm.paired, Pair.op, hzone, hsilent, hgroup]
  | equal | is | like | regexp => cases h

theorem sqlOperator_is :
    sqlOperator (term.paired .is negated) =
      if isParity term.val then [.code (if negated then " % 2 != " else " % 2 = ")]
      else if upper term.val.print = "NULL" then [.code (if negated then " IS NOT " else " IS ")]
      else [.code (if negated then " != " else " = ")] := by
  cases negated <;>
    simp [sqlOperator, FilterTerm.paired, Pair.op, hzone, hsilent, hgroup, isParity]

theorem isListOperator_paired :
    isListOperator (sqlOperator (term.paired pair negated)) = pair.isList := by
  cases hlist : pair.isList with
  | true =>
    have hoperator := @sqlOperator_list _ _ negated hzone hsilent hgroup hlist
    cases negated <;> simp [hoperator, isListOperator]
  | false =>
    cases pair with
    | isIn | any => cases hlist
    | is =>
      rw [sqlOperator_is hzone hsilent hgroup]
      split_ifs <;> simp [isListOperator]
    | equal | like | regexp =>
      cases negated <;> simp [sqlOperator, FilterTerm.paired, Pair.op, hgroup, hzone, hsilent,
        isListOperator]

end Comparisons

theorem values_of_null (h : upper term.val.print = "NULL") :
    WebFilter.values term.val = [term.val.print] := by
  have hmap : term.val.print.toList.map Char.toUpper = ['N', 'U', 'L', 'L'] := by
    have htext := congrArg String.toList h
    rwa [upper, String.toList_ofList] at htext
  have hnone : ∀ c ∈ term.val.print.toList, Filter.isQuote c = false ∧ c ≠ ',' := by
    intro c hc
    have hupper : c.toUpper ∈ ['N', 'U', 'L', 'L'] := hmap ▸ List.mem_map_of_mem hc
    constructor
    · rw [Filter.isQuote, Bool.or_eq_false_iff]
      constructor
      · rw [decide_eq_false_iff_not]
        rintro rfl
        exact absurd hupper (by decide)
      · rw [decide_eq_false_iff_not]
        rintro rfl
        exact absurd hupper (by decide)
    · rintro rfl
      exact absurd hupper (by decide)
  have hstrip : Filter.stripQuotes term.val.print.toList = term.val.print.toList := by
    cases htext : term.val.print.toList with
    | nil => rfl
    | cons c rest =>
      have hc := (hnone c (by simp [htext])).1
      simp [Filter.stripQuotes, hc]
  have hsplit : term.val.print.toList.splitOn ',' = [term.val.print.toList] := by
    rw [List.splitOn]
    apply List.splitOnP_eq_singleton
    intro c hc
    simpa using (hnone c hc).2
  rw [WebFilter.values, hstrip, Filter.splitFields, hsplit]
  simp

/-- A disjunction of comparisons and that of their negations. -/
theorem truth_compares {left : Expr} {comparator : Comparator} {holds : Expr → Bool}
    (hne : values ≠ [])
    (h : ∀ value ∈ values, (Atom.compare left comparator value).truth row = .ofBool (holds value)) :
    truth row (bracketed (joinedWords .disj
      (values.map (fun value ↦ [.atom (.compare left comparator value)])))) =
        some (.ofBool (values.any holds)) := by
  rw [← Ternary.disjs_map_ofBool]
  apply truth_of_isOperand
  apply isOperand_disjoined
  · rw [List.forall₂_map_left_iff, List.forall₂_map_right_iff, List.forall₂_same]
    intro value hvalue
    rw [← h value hvalue]
    exact isOperand_atom _
  · simpa using hne

theorem any_not_iff {α : Type} {l : List α} {p : α → Bool} (hne : l ≠ []) :
    (l.any (fun a ↦ !p a) = true ↔ l.any p = false) ↔ ∀ a ∈ l, ∀ b ∈ l, p a = p b := by
  obtain ⟨a, ha⟩ := List.exists_mem_of_ne_nil l hne
  rw [List.any_eq_true, List.any_eq_false]
  constructor
  · intro h
    have hall : ∀ b ∈ l, p b = p a := by
      intro b hb
      cases hpa : p a with
      | false =>
        have hfalse := h.mp ⟨a, ha, by simp [hpa]⟩ b hb
        simpa using hfalse
      | true =>
        by_contra hpb
        have hfalse := h.mp ⟨b, hb, by simpa using hpb⟩ a ha
        exact hfalse hpa
    intro b hb c hc
    rw [hall b hb, hall c hc]
  · intro h
    constructor
    · rintro ⟨b, hb, hpb⟩ c hc
      rw [h c hc b hb]
      simpa using hpb
    · intro hall
      exact ⟨a, ha, by simpa using hall a ha⟩

theorem mapM_some {α β : Type} (f : α → β) (l : List α) :
    l.mapM (fun a ↦ some (f a)) = some (l.map f) :=
  List.mapM_pure

section Several

variable (hzone : term.attr ≠ "AlarmedZoneId") (hsilent : silentAttr term.attr = false)

include hzone hsilent

theorem comparison_eq (hnull : testsNull (term.paired pair negated) = false) {comparator : Comparator}
    (hcomparator : comparatorOf (term.paired pair negated) = some comparator) :
    comparison web (term.paired pair negated) =
      fun value ↦ some (.compare (leftSql web term) comparator value) := by
  have hattr : (term.paired pair negated).attr = term.attr := rfl
  funext value
  unfold comparison
  rw [hattr, if_neg hzone, if_neg (by simp [hsilent]), if_neg (by simp [hnull]), hcomparator]
  rfl

theorem sqlValue_null (htext : textAttr term.attr = false) {text : String}
    (h : upper text = "NULL") : sqlValue web term text = [.keyword text] := by
  have hserver : text ≠ "ZM_SERVER_ID" := by
    rintro rfl
    revert h
    decide +kernel
  have hodd : text ≠ "Odd" ∧ text ≠ "Even" := by
    constructor <;> rintro rfl <;> revert h <;> decide +kernel
  rw [sqlValue, if_neg hzone, if_neg (by simp [hsilent]), if_neg (by simp [htext])]
  simp [h, hserver, hodd]

omit hzone hsilent in
theorem sqlValues_of_testsNull (hgroup : term.attr ≠ "Group")
    (h : testsNull (term.paired pair false)) :
    upper term.val.print = "NULL" ∧ sqlValues web (term.paired pair false) =
      [sqlValue web (term.paired pair false) term.val.print] := by
  have hattr : (term.paired pair false).attr = term.attr := rfl
  have hupper : upper term.val.print = "NULL" := by
    simp only [testsNull, Bool.and_eq_true, decide_eq_true_eq] at h
    exact h.2
  refine ⟨hupper, ?_⟩
  rw [sqlValues, hattr, if_neg hgroup]
  exact congrArg _ (values_of_null hupper)

theorem comparison_isSome_iff (hgroup : term.attr ≠ "Group") (hlist : pair.isList = false) :
    (comparison web (term.paired pair false)
      ((sqlValues web (term.paired pair false)).headD [])).isSome ↔
        ¬(testsNull (term.paired pair false) ∧ textAttr term.attr) := by
  have hattr : (term.paired pair false).attr = term.attr := rfl
  cases hnull : testsNull (term.paired pair false) with
  | false =>
    obtain ⟨comparator, hcomparator⟩ := Option.isSome_iff_exists.mp
      (@comparatorOf_paired term pair hlist).2
    simp [comparison_eq hzone hsilent hnull hcomparator]
  | true =>
    obtain ⟨hupper, hvalues⟩ := @sqlValues_of_testsNull web term pair hgroup hnull
    rw [hvalues, List.headD_cons]
    cases htext : textAttr term.attr with
    | true =>
      simp [comparison, sqlValue, hattr, hzone, hsilent, htext, hnull]
    | false =>
      rw [@sqlValue_null web (term.paired pair false) hzone hsilent htext _ hupper]
      simp [comparison, hattr, hzone, hsilent, hnull]

theorem comparisonWords_several (hgroup : term.attr ≠ "Group") (hlist : pair.isList = false)
    (hleft : (row.datum (leftSql web term)).isSome)
    (hknown : ∀ value ∈ sqlValues web (term.paired pair false), (row.datum value).isSome)
    (hseveral : (sqlValues web (term.paired pair false)).length > 1) :
    (∃ words, comparisonWords web (term.paired pair false)
        (sqlValues web (term.paired pair false)) = some words ∧
      ∃ words', comparisonWords web (term.paired pair true)
          (sqlValues web (term.paired pair false)) = some words' ∧
        (truth row words' = some .yes ↔ truth row words = some .no)) ↔
      ∀ comparator ∈ comparatorOf (term.paired pair false),
        ∀ value ∈ sqlValues web (term.paired pair false),
          ∀ value' ∈ sqlValues web (term.paired pair false),
            (Atom.compare (leftSql web term) comparator value).truth row =
              (Atom.compare (leftSql web term) comparator value').truth row := by
  have hlistOperator (negated : Bool) :
      isListOperator (sqlOperator (term.paired pair negated)) = false :=
    (isListOperator_paired hzone hsilent hgroup).trans hlist
  have hnull : testsNull (term.paired pair false) = false := by
    by_contra hnull
    rw [(sqlValues_of_testsNull hgroup (by simpa using hnull)).2] at hseveral
    simp at hseveral
  obtain ⟨hopposite, hsome⟩ := @comparatorOf_paired term pair hlist
  obtain ⟨comparator, hcomparator⟩ := Option.isSome_iff_exists.mp hsome
  rw [hcomparator, Option.map_some] at hopposite
  have hne : sqlValues web (term.paired pair false) ≠ [] := by
    intro hempty
    simp [hempty] at hseveral
  have hwords (negated : Bool) (c : Comparator)
      (hc : comparison web (term.paired pair negated) =
        fun value ↦ some (.compare (leftSql web term) c value)) :
      comparisonWords web (term.paired pair negated) (sqlValues web (term.paired pair false)) =
        some (bracketed (joinedWords .disj ((sqlValues web (term.paired pair false)).map
          (fun value ↦ [.atom (.compare (leftSql web term) c value)])))) := by
    rw [comparisonWords, if_pos ⟨hseveral, hlistOperator negated⟩, hc, mapM_some, Option.map_some,
      List.map_map]
    rfl
  choose! holds hholds using fun value (hvalue : value ∈ sqlValues web (term.paired pair false)) ↦
    truth_compare_known row comparator hleft (hknown value hvalue)
  have hnot : ∀ value ∈ sqlValues web (term.paired pair false),
      (Atom.compare (leftSql web term) comparator.opposite value).truth row =
        .ofBool (!holds value) := by
    intro value hvalue
    have hnegation := truth_opposite row (.compare (leftSql web term) comparator value)
    rwa [hholds value hvalue, Ternary.neg_ofBool] at hnegation
  rw [hwords false comparator (comparison_eq hzone hsilent hnull hcomparator),
    hwords true comparator.opposite
      (comparison_eq hzone hsilent (testsNull_paired.trans hnull) hopposite)]
  simp only [Option.some.injEq, exists_eq_left', Option.mem_def, hcomparator, forall_eq',
    truth_compares hne hholds, truth_compares hne hnot, Ternary.ofBool_eq_yes_iff,
    Ternary.ofBool_eq_no_iff]
  rw [any_not_iff hne]
  constructor
  · intro hall value hvalue value' hvalue'
    rw [hholds value hvalue, hholds value' hvalue', hall value hvalue value' hvalue']
  · intro hall value hvalue value' hvalue'
    have heq := hall value hvalue value' hvalue'
    rw [hholds value hvalue, hholds value' hvalue'] at heq
    revert heq
    cases holds value <;> cases holds value' <;> simp [Ternary.ofBool]

theorem comparisonWords_one (hgroup : term.attr ≠ "Group")
    (hne : sqlValues web (term.paired pair false) ≠ [])
    (hone : ¬((sqlValues web (term.paired pair false)).length > 1 ∧ pair.isList = false)) :
    (∃ words, comparisonWords web (term.paired pair false)
        (sqlValues web (term.paired pair false)) = some words ∧
      ∃ words', comparisonWords web (term.paired pair true)
          (sqlValues web (term.paired pair false)) = some words' ∧
        (truth row words' = some .yes ↔ truth row words = some .no)) ↔
      if isTag web term (sqlValues web (term.paired pair false)) "'0'" ∨
          isTag web term (sqlValues web (term.paired pair false)) "'-1'" then
        pair = .equal ∨ pair = .is
      else ¬(testsNull (term.paired pair false) ∧ textAttr term.attr) := by
  have hlistOperator (negated : Bool) :
      isListOperator (sqlOperator (term.paired pair negated)) = pair.isList :=
    isListOperator_paired hzone hsilent hgroup
  have htag (negated : Bool) (literal : String) :
      isTag web (term.paired pair negated) (sqlValues web (term.paired pair false)) literal =
        isTag web term (sqlValues web (term.paired pair false)) literal := rfl
  have hnegates (negated : Bool) : negatesTag (term.paired pair negated) =
      (negated && (pair = .equal || pair = .is)) := by
    cases pair <;> cases negated <;> rfl
  have hfinds (flipped : Bool) : (truth row
      [.atom (.finds (xor flipped (negatesTag (term.paired pair true))) tagQuery)] = some .yes ↔
        truth row [.atom (.finds (xor flipped (negatesTag (term.paired pair false))) tagQuery)] =
          some .no) ↔ pair = .equal ∨ pair = .is := by
    rw [hnegates, hnegates, truth_of_isOperand (isOperand_atom _),
      truth_of_isOperand (isOperand_atom _)]
    simp only [Atom.truth]
    generalize row.finds tagQuery = found
    cases flipped <;> cases pair <;> cases found <;> decide
  have hone' (negated : Bool) : ¬((sqlValues web (term.paired pair false)).length > 1 ∧
      isListOperator (sqlOperator (term.paired pair negated)) = false) := by
    rwa [hlistOperator negated]
  simp only [comparisonWords, if_neg (hone' false), if_neg (hone' true), htag]
  by_cases hnone : isTag web term (sqlValues web (term.paired pair false)) "'0'"
  · simpa [hnone] using hfinds true
  by_cases hany : isTag web term (sqlValues web (term.paired pair false)) "'-1'"
  · simpa [hnone, hany] using hfinds false
  have hneither : ¬(isTag web term (sqlValues web (term.paired pair false)) "'0'" ∨
      isTag web term (sqlValues web (term.paired pair false)) "'-1'") := not_or.mpr ⟨hnone, hany⟩
  simp only [if_neg hnone, if_neg hany, if_neg hneither, hlistOperator]
  cases hlist : pair.isList with
  | true =>
    have hpair : testsNull (term.paired pair false) = false := by
      cases pair <;> first | rfl | cases hlist
    have hopposed := @opposed_atom _ row (.member (leftSql web term) false
      (sqlValues web (term.paired pair false)))
    have hleft (negated : Bool) : leftSql web (term.paired pair negated) = leftSql web term := rfl
    simpa [sqlOperator_list hzone hsilent hgroup hlist, hleft, hpair, Atom.opposite] using hopposed.negates
  | false =>
    rw [← comparison_isSome_iff hzone hsilent hgroup hlist]
    simp only [if_neg hne, comparison_paired hzone hlist]
    cases comparison web (term.paired pair false)
        ((sqlValues web (term.paired pair false)).headD []) with
    | none => simp
    | some atom => simpa using (@opposed_atom _ row atom).negates

end Several

theorem conditionWords_paired (hcolumn : dateColumn term.attr = none) :
    conditionWords web (term.paired pair negated) =
      comparisonWords web (term.paired pair negated) (sqlValues web (term.paired pair false)) := by
  have hattr : dateColumn (term.paired pair negated).attr = none := hcolumn
  have hrunning : lowerBound (term.paired pair negated) = false := by
    cases pair <;> cases negated <;> simp [lowerBound, FilterTerm.paired, Pair.op, Scalar.looseEq]
  unfold conditionWords
  simp only [hattr]
  rw [if_neg (by simp [hrunning]), sqlValues_paired]

/-- The operator of a group does not depend on the one of the term. -/
theorem not_negates_group (hgroup : term.attr = "Group")
    (hleft : (row.datum (leftSql web term)).isSome)
    (hknown : ∀ value ∈ sqlValues web (term.paired pair false), (row.datum value).isSome) :
    ¬Negates web row term pair := by
  have hwords (negated : Bool) : conditionWords web (term.paired pair negated) =
      some [.atom (.member (leftSql web term) false (sqlValues web (term.paired pair false)))] := by
    have hattr : (term.paired pair negated).attr = "Group" := hgroup
    rw [conditionWords_group hattr, sqlValues_paired]
    rfl
  obtain ⟨a, ha⟩ := Option.isSome_iff_exists.mp hleft
  have hnonempty : Nonempty δ := ⟨a⟩
  choose! datum hdatum using fun value (hvalue : value ∈ sqlValues web (term.paired pair false)) ↦
    Option.isSome_iff_exists.mp (hknown value hvalue)
  have htruth : (Atom.member (leftSql web term) false
      (sqlValues web (term.paired pair false))).truth row =
        .ofBool ((sqlValues web (term.paired pair false)).any (fun value ↦ row.eq a (datum value))) := by
    rw [← Ternary.disjs_map_ofBool, Atom.truth, negatedIf, if_neg (by simp), ha]
    congr 1
    apply List.map_congr_left
    intro value hvalue
    rw [hdatum value hvalue, liftTernary]
  rintro ⟨words, h, words', h', hnegates⟩
  rw [hwords, Option.some.injEq] at h h'
  subst h h'
  rw [truth_of_isOperand (isOperand_atom _), htruth, Option.some.injEq, Option.some.injEq,
    Ternary.ofBool_eq_yes_iff, Ternary.ofBool_eq_no_iff] at hnegates
  revert hnegates
  generalize List.any _ _ = found
  cases found <;> simp

/-- Where a negative operator negates. -/
theorem negates_iff (hzone : term.attr ≠ "AlarmedZoneId") (hsilent : silentAttr term.attr = false)
    (hsubject : (row.datum (subject web term)).isSome)
    (hne : sqlValues web (term.paired pair false) ≠ [])
    (hknown : ∀ value ∈ sqlValues web (term.paired pair false), (row.datum value).isSome) :
    Negates web row term pair ↔ Negatable web row term pair := by
  by_cases hgroup : term.attr = "Group"
  · have hleft : (row.datum (leftSql web term)).isSome := by
      simpa [subject, dateColumn, hgroup] using hsubject
    simp [Negatable, hgroup, not_negates_group hgroup hleft hknown]
  cases hcolumn : dateColumn term.attr with
  | some column =>
    have hattr (negated : Bool) : dateColumn (term.paired pair negated).attr = some column := hcolumn
    have hwords (negated : Bool) : conditionWords web (term.paired pair negated) =
        dateWords web column (pair.op negated) (sqlValues web (term.paired pair false)) := by
      unfold conditionWords
      simp only [hattr]
      rw [← sqlValues_paired pair negated]
      rfl
    rw [Negates, hwords, hwords]
    by_cases hregexp : pair = .regexp
    · subst hregexp
      simp [Negatable, hcolumn, Pair.op, dateWords_regexp]
    · obtain ⟨words, h, words', h', hopposed⟩ :=
        @dateWords_paired _ web pair _ row column hne hregexp
      rw [h, h']
      simpa [Negatable, hgroup, hcolumn, hregexp] using hopposed.negates
  | none =>
    have hleft : (row.datum (leftSql web term)).isSome := by
      simpa [subject, hcolumn] using hsubject
    rw [Negates, conditionWords_paired hcolumn, conditionWords_paired hcolumn]
    by_cases hseveral : (sqlValues web (term.paired pair false)).length > 1 ∧ pair.isList = false
    · rw [comparisonWords_several hzone hsilent hgroup hseveral.2 hleft hknown hseveral.1]
      simp only [Negatable, hcolumn, if_pos hseveral]
      simp [hgroup]
    · rw [comparisonWords_one hzone hsilent hgroup hne hseveral]
      simp only [Negatable, hcolumn, if_neg hseveral]
      simp [hgroup]

/-- A row whose columns all hold the same text. -/
def textRow (column : String) : Row Expr String where
  datum
    | [.quoted text] => some text
    | [.keyword _] => none
    | _ => some column
  eq a b := a = b
  lt a b := a < b
  like a b := a = b
  regexp a b := a = b
  parity _ _ := false
  finds _ := false

def plainTerm (attr op val : String) : FilterTerm :=
  construct plainWeb (oneTerm attr op (.text val))

theorem negates_name : Negates plainWeb (textRow "Event") (plainTerm "Name" "=" "Event") .equal :=
  (negates_iff (by decide +kernel) (by decide +kernel) (by decide +kernel) (by decide +kernel)
    (by decide +kernel)).mpr ⟨by decide +kernel, by decide +kernel⟩

/-- Of two different numbers, every number is different from one. -/
theorem not_negates_list : ¬Negates plainWeb (textRow "5") (plainTerm "Id" "=" "5,6") .equal := by
  have htruth : (conditionWords plainWeb ((plainTerm "Id" "=" "5,6").paired .equal false)).bind
        (truth (textRow "5")) = some .yes ∧
      (conditionWords plainWeb ((plainTerm "Id" "=" "5,6").paired .equal true)).bind
        (truth (textRow "5")) = some .yes := by
    decide +kernel
  rintro ⟨words, h, words', h', hnegates⟩
  rw [h, h', Option.bind_some, Option.bind_some] at htruth
  rw [htruth.1, htruth.2] at hnegates
  exact absurd (hnegates.mp rfl) (by decide)

end ZoneMinder.WebFilter
