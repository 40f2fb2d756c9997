import ZoneMinder.Filter.Safe

namespace ZoneMinder.Filter

open Perl

variable (script : Script)

theorem mem_of_mem_stripQuotes {c : Char} {text : List Char} (h : c ∈ stripQuotes text) :
    c ∈ text := by
  cases text with
  | nil => cases h
  | cons q rest =>
    simp only [stripQuotes] at h
    by_cases hlast : rest.getLast? = some '\n'
    · obtain ⟨line, rfl⟩ := List.getLast?_eq_some_iff.mp hlast
      simp only [if_pos hlast, List.dropLast_concat] at h
      split_ifs at h
      · rcases List.mem_append.mp h with h | h
        · exact List.mem_cons_of_mem q
            (List.mem_append_left _ ((List.dropLast_sublist line).subset h))
        · exact List.mem_cons_of_mem q (List.mem_append_right _ h)
      · exact h
    · simp only [if_neg hlast, List.append_nil] at h
      split_ifs at h
      · exact List.mem_cons_of_mem q ((List.dropLast_sublist rest).subset h)
      · exact h

/-- Without a field the value had separators only. -/
theorem comma_mem_of_valueTexts {val : String} (h : valueTexts script val = []) :
    ',' ∈ val.toList := by
  by_contra hcomma
  simp only [valueTexts] at h
  by_cases hempty : stripQuotes val.toList = []
  · rw [if_pos hempty] at h
    cases h
  · rw [if_neg hempty, List.map_eq_nil_iff] at h
    have hnot : ',' ∉ stripQuotes val.toList := fun hc ↦ hcomma (mem_of_mem_stripQuotes hc)
    have hfields : splitFields (space script.toRuntime) (stripQuotes val.toList) =
        [stripQuotes val.toList] := by
      rw [splitFields, List.splitOn_eq_singleton hnot]
      rfl
    rw [hfields] at h
    have hall := List.rdropWhile_eq_nil_iff.mp h _ (List.mem_singleton_self _)
    exact hempty (List.isEmpty_iff.mp hall)

theorem render_user (val : String) : render script [.user val] = val := by
  simp [render, Piece.render, String.join]

/-- The value as it is stored stands in the statement. -/
theorem user_mem_operatorSql {attr op val : String} (hcolumn : dateColumn attr = none)
    (hop : op ∉ ["=[]", "IN", "![]", "NOT IN"]) (hcomma : ',' ∈ val.toList) :
    .user val ∈ operatorSql script attr op val [.user val] [] := by
  have hval (text : String) (htext : ',' ∉ text.toList) : val ≠ text := by
    intro heq
    exact htext (heq ▸ hcomma)
  have hzero := hval "0" (by decide)
  have hone := hval "-1" (by decide)
  have hodd := hval "Odd" (by decide)
  have heven := hval "Even" (by decide)
  simp only [List.mem_cons, List.not_mem_nil, or_false, not_or] at hop
  obtain ⟨hop₁, hop₂, hop₃, hop₄⟩ := hop
  simp only [operatorSql, hcolumn, render_user, ne_eq, not_true_eq_false, and_false, if_false,
    hzero, hone, hodd, heven, hop₁, hop₂, hop₃, hop₄, or_self]
  split_ifs <;> simp

/-- A date that is no keyword and cannot be read. -/
def UnreadableDate (attr text : String) : Prop :=
  isNull text = false ∧ parsedDate script text = none ∧
    ((dateTimeAttr attr ∨ timeAttr attr) ∨
      dateAttr attr ∧ text ≠ "CURDATE()" ∧ text ≠ "NOW()")

/-- The values that stop a term from becoming SQL. -/
def TermRefused : Json → Prop
  | .null => False
  | .object fields =>
    (Json.get fields "attr").truthy ∧
      (cleanAttr (termAttr script fields) = false ∨
        (termOp script fields ≠ "" ∧ termOp script fields ∉ validOps) ∨
        termAttr script fields ≠ "ExistsInFileSystem" ∧
          ∃ text ∈ valueTexts script (termVal script fields),
            UnreadableDate script (termAttr script fields) text)
  | _ => True

/-- The value consists of separators only and is used as it is stored. -/
def RawValue (attr op val : String) : Prop :=
  attr ≠ "ExistsInFileSystem" ∧ dateColumn attr = none ∧ isTrue (effectiveOp attr op) ∧
    effectiveOp attr op ∉ ["=[]", "IN", "![]", "NOT IN"] ∧ valueTexts script val = []

def RawTerm : Json → Prop
  | .object fields =>
    (Json.get fields "attr").truthy ∧
      RawValue script (termAttr script fields) (termOp script fields) (termVal script fields)
  | _ => False

section Terms

variable {script}

/-- Dates are no other kind of attribute. -/
theorem not_other_of_date {attr : String} (h : dateTimeAttr attr ∨ timeAttr attr ∨ dateAttr attr) :
    attr ≠ "AlarmedZoneId" ∧ isMonitorNameAttr attr = false ∧ serverAttr attr = false ∧
      attr ≠ "StorageId" ∧ textAttr attr = false := by
  simp only [dateTimeAttr, timeAttr, dateAttr, decide_eq_true_eq, List.mem_cons,
    List.not_mem_nil, or_false] at h
  rcases h with (rfl | rfl | rfl | rfl) | (rfl | rfl | rfl | rfl) | (rfl | rfl | rfl | rfl) <;>
    decide

theorem not_time_of_date {attr : String} (h : dateAttr attr) : timeAttr attr = false := by
  simp only [dateAttr, decide_eq_true_eq, List.mem_cons, List.not_mem_nil, or_false] at h
  rcases h with rfl | rfl | rfl | rfl <;> decide

/-- Only a date can refuse the filter. -/
theorem valueSql_eq_none_iff (attr op text : String) (value : List Piece) :
    valueSql script attr op value text = none ↔ UnreadableDate script attr text := by
  by_cases hdate : dateTimeAttr attr ∨ timeAttr attr ∨ dateAttr attr
  · obtain ⟨h₁, h₂, h₃, h₄, h₅⟩ := not_other_of_date hdate
    simp only [valueSql, UnreadableDate, h₁, h₂, h₃, h₄, h₅, if_false, Bool.false_eq_true]
    by_cases hnull : isNull text
    · simp only [hnull, if_true, Bool.true_eq_false, false_and, iff_false]
      split_ifs <;> simp
    have hnull' : isNull text = false := by simpa using hnull
    by_cases h₆ : dateTimeAttr attr
    · simp [h₆, hnull']
    by_cases h₇ : dateAttr attr
    · have h₈ := not_time_of_date h₇
      by_cases hnow : text = "CURDATE()" ∨ text = "NOW()"
      · simp only [h₆, h₇, h₈, hnull', hnow, if_true, if_false, Bool.false_eq_true,
          reduceCtorEq, false_iff]
        tauto
      · simp only [h₆, h₇, h₈, hnull', hnow, if_true, if_false, Bool.false_eq_true,
          Option.map_eq_none_iff]
        tauto
    · have h₈ : timeAttr attr := by tauto
      simp [h₆, h₇, h₈, hnull']
  · refine iff_of_false ?_ ?_
    · simp only [not_or, Bool.not_eq_true] at hdate
      simp only [valueSql, hdate.1, hdate.2.1, hdate.2.2, Bool.false_eq_true, if_false]
      split_ifs <;> simp
    · intro h
      obtain ⟨-, -, (h | h) | h⟩ := h
      · exact hdate (.inl h)
      · exact hdate (.inr (.inl h))
      · exact hdate (.inr (.inr h.1))

theorem valuesSql_eq_none_iff (attr op : String) (value : List Piece) (texts : List String) :
    valuesSql script attr op value texts = none ↔
      ∃ text ∈ texts, UnreadableDate script attr text := by
  induction texts generalizing value with
  | nil => simp [valuesSql]
  | cons text texts ih =>
    rw [valuesSql]
    cases hvalue : valueSql script attr op value text with
    | none => simp [(valueSql_eq_none_iff attr op text value).mp hvalue]
    | some value' =>
      have hnot : ¬UnreadableDate script attr text := by
        rw [← valueSql_eq_none_iff attr op text value, hvalue]
        simp
      have hrest := ih value'
      cases hvalues : valuesSql script attr op value' texts with
      | none => simpa [hvalues, hnot] using hrest
      | some result => simpa [hvalues, hnot] using hrest

theorem effectiveOp_allowed {attr op : String} (h : op = "" ∨ op ∈ validOps)
    (htrue : isTrue (effectiveOp attr op)) :
    Allowed (digit script.toRuntime) (effectiveOp attr op) := by
  rw [effectiveOp] at htrue ⊢
  by_cases hattr : attr = "AlarmedZoneId"
  · rw [if_pos hattr]
    exact allowed_op (by decide)
  · rw [if_neg hattr] at htrue ⊢
    rcases h with rfl | h
    · cases htrue
    · exact allowed_op h

theorem conditionSql_safe_iff (hscript : script.Documented) {attr op val : String}
    {condition : List Piece} (hop : op = "" ∨ op ∈ validOps)
    (h : conditionSql script attr op val = some condition) :
    AllSafe script condition ↔ ¬RawValue script attr op val := by
  rw [conditionSql] at h
  by_cases hexists : attr = "ExistsInFileSystem"
  · rw [if_pos hexists] at h
    obtain rfl : [] = condition := by simpa using h
    refine iff_of_true allSafe_nil ?_
    intro hraw
    exact hraw.1 hexists
  rw [if_neg hexists] at h
  obtain ⟨⟨value, values⟩, hvalues, h⟩ := Option.bind_eq_some_iff.mp h
  obtain rfl : (if isTrue (effectiveOp attr op) then
      operatorSql script attr (effectiveOp attr op) val value values else []) = condition := by
    simpa using h
  by_cases htrue : isTrue (effectiveOp attr op)
  · rw [if_pos htrue]
    have hallowed : Allowed (digit script.toRuntime) (effectiveOp attr op) :=
      effectiveOp_allowed hop htrue
    obtain ⟨hsafe, hlast⟩ := valuesSql_safe hscript hvalues
    by_cases htexts : valueTexts script val = []
    · rw [if_pos htexts] at hlast
      obtain ⟨rfl, rfl⟩ := hlast
      have hcomma := comma_mem_of_valueTexts script htexts
      constructor
      · intro hall hraw
        obtain ⟨-, hcolumn, -, hlist, -⟩ := hraw
        exact (hall _ (user_mem_operatorSql script hcolumn hlist hcomma)).comma_not_mem hcomma
      · intro hraw
        refine operatorSql_safe hscript attr val hallowed hsafe (.inr ?_)
        by_contra hnot
        rw [not_or] at hnot
        refine hraw ⟨hexists, ?_, htrue, hnot.2, htexts⟩
        simpa using hnot.1
    · rw [if_neg htexts] at hlast
      refine iff_of_true (operatorSql_safe hscript attr val hallowed hsafe (.inl hlast)) ?_
      intro hraw
      exact htexts hraw.2.2.2.2
  · rw [if_neg htrue]
    refine iff_of_true allSafe_nil ?_
    intro hraw
    exact htrue hraw.2.2.1

theorem conditionSql_eq_none_iff (attr op val : String) :
    conditionSql script attr op val = none ↔ attr ≠ "ExistsInFileSystem" ∧
      ∃ text ∈ valueTexts script val, UnreadableDate script attr text := by
  rw [conditionSql]
  by_cases hexists : attr = "ExistsInFileSystem"
  · simp [hexists]
  · rw [if_neg hexists, ← valuesSql_eq_none_iff attr (effectiveOp attr op) [.user val]]
    cases valuesSql script attr (effectiveOp attr op) [.user val] (valueTexts script val) <;>
      simp [hexists]

theorem termSql_eq_none_iff (clauses : Clauses) (term : Json) :
    termSql script clauses term = none ↔ TermRefused script term := by
  cases term with
  | null => simp [termSql, TermRefused]
  | object fields =>
    simp only [termSql, TermRefused]
    by_cases hattr : (Json.get fields "attr").truthy
    · rw [if_neg (by simp [hattr])]
      by_cases hchecked : cleanAttr (termAttr script fields) = false ∨
          (termOp script fields ≠ "" ∧ termOp script fields ∉ validOps)
      · rw [if_pos hchecked]
        simp only [hattr, true_and, true_iff]
        tauto
      · rw [if_neg hchecked]
        have hcondition := @conditionSql_eq_none_iff script (termAttr script fields)
          (termOp script fields) (termVal script fields)
        cases hresult : conditionSql script (termAttr script fields) (termOp script fields)
            (termVal script fields) with
        | none =>
          rw [hresult] at hcondition
          simp only [Option.bind_eq_bind, Option.bind_none, hattr, true_and, true_iff]
          exact .inr (.inr (hcondition.mp rfl))
        | some condition =>
          rw [hresult] at hcondition
          simp only [reduceCtorEq, false_iff] at hcondition
          simp only [Option.bind_eq_bind, Option.bind_some, Option.pure_def, reduceCtorEq, hattr,
            true_and, false_iff]
          intro h
          rcases h with h | h | h
          · exact hchecked (.inl h)
          · exact hchecked (.inr h)
          · exact hcondition h
    · simp [hattr]
  | bool | number | string | array => simp [termSql, TermRefused]

theorem termStart_safe (fields : List (String × Json)) :
    AllSafe script (termStart script fields) := by
  have hcnj : AllSafe script
      (if chomp ((Json.get fields "cnj").text script.toRuntime).toList = ['a', 'n', 'd'] ∨
          chomp ((Json.get fields "cnj").text script.toRuntime).toList = ['o', 'r'] then
        [.code " ", .user ((Json.get fields "cnj").text script.toRuntime)] else []) := by
    by_cases h : chomp ((Json.get fields "cnj").text script.toRuntime).toList = ['a', 'n', 'd'] ∨
        chomp ((Json.get fields "cnj").text script.toRuntime).toList = ['o', 'r']
    · rw [if_pos h]
      simp (disch := decide) [allowed_cnj (List.mem_pair.mpr h)]
    · rw [if_neg h]
      exact allSafe_nil
  simp only [termStart]
  cases fields.lookup "obr" <;>
    simp (disch := decide) only [allSafe_append, allSafe_cons, allSafe_nil, safe_code, safe_user,
      hcnj, allowed_open, and_self]

theorem termEnd_safe (fields : List (String × Json)) :
    AllSafe script (termEnd script fields) := by
  simp only [termEnd]
  cases fields.lookup "cbr" <;> simp (disch := decide) [allowed_close]

/-- The parts of the statement before `WHERE` never come from the query. -/
def Clauses.Fixed (script : Script) (clauses : Clauses) : Prop :=
  AllSafe script clauses.fields ∧ AllSafe script clauses.tables

theorem Clauses.Fixed.joinMonitors {clauses : Clauses} (h : clauses.Fixed script) :
    clauses.joinMonitors.Fixed script := by
  rw [Clauses.joinMonitors]
  split_ifs
  · exact h
  · exact ⟨by simp (disch := decide) [h.1], by simp (disch := decide) [h.2]⟩

theorem Clauses.Fixed.join {clauses : Clauses} (h : clauses.Fixed script) (attr : String) :
    (clauses.join attr).Fixed script := by
  rw [Clauses.join]
  split_ifs
  · exact ⟨by simp (disch := decide +kernel) [h.1], by simp (disch := decide +kernel) [h.2]⟩
  · exact h.joinMonitors
  · exact h

theorem join_sql (clauses : Clauses) (attr : String) : (clauses.join attr).sql = clauses.sql := by
  rw [Clauses.join, Clauses.joinMonitors]
  split_ifs <;> rfl

/-- A term is safe unless its value is used as it is stored. -/
theorem termSql_safe_iff (hscript : script.Documented) {clauses clauses' : Clauses} {term : Json}
    (h : termSql script clauses term = some clauses') :
    (AllSafe script clauses'.sql ↔ AllSafe script clauses.sql ∧ ¬RawTerm script term) ∧
      (clauses.Fixed script → clauses'.Fixed script) := by
  cases term with
  | null =>
    obtain rfl : clauses.add [.code " "] = clauses' := by simpa [termSql] using h
    simp (disch := decide) [Clauses.add, RawTerm, Clauses.Fixed]
  | object fields =>
    simp only [termSql] at h
    by_cases hattr : (Json.get fields "attr").truthy
    · rw [if_neg (by simp [hattr])] at h
      by_cases hchecked : cleanAttr (termAttr script fields) = false ∨
          (termOp script fields ≠ "" ∧ termOp script fields ∉ validOps)
      · rw [if_pos hchecked] at h
        cases h
      rw [if_neg hchecked] at h
      rw [not_or, Bool.not_eq_false] at hchecked
      have hop : termOp script fields = "" ∨ termOp script fields ∈ validOps := by tauto
      obtain ⟨condition, hcondition, h⟩ := Option.bind_eq_some_iff.mp h
      rw [Option.pure_def, Option.some.injEq] at h
      subst h
      have hsafe := conditionSql_safe_iff hscript hop hcondition
      refine ⟨?_, fun hfixed ↦ hfixed.join _⟩
      simp only [Clauses.add, join_sql, allSafe_append, termStart_safe, termEnd_safe,
        attrSql_safe hchecked.1, hsafe, RawTerm, hattr, true_and, and_true]
    · rw [if_pos (by simpa using hattr)] at h
      obtain rfl : clauses.add (termStart script fields) = clauses' := by simpa using h
      simp [Clauses.add, RawTerm, hattr, Clauses.Fixed, termStart_safe]
  | bool | number | string | array => cases h

theorem termsSql_safe_iff (hscript : script.Documented) {terms : List Json}
    {clauses clauses' : Clauses} (h : terms.foldlM (termSql script) clauses = some clauses') :
    (AllSafe script clauses'.sql ↔
      AllSafe script clauses.sql ∧ ∀ term ∈ terms, ¬RawTerm script term) ∧
      (clauses.Fixed script → clauses'.Fixed script) := by
  induction terms generalizing clauses with
  | nil =>
    obtain rfl : clauses = clauses' := by simpa using h
    simp
  | cons term terms ih =>
    rw [List.foldlM_cons] at h
    obtain ⟨mid, hmid, h⟩ := Option.bind_eq_some_iff.mp h
    obtain ⟨hterm, hfixed⟩ := termSql_safe_iff hscript hmid
    obtain ⟨hterms, hfixed'⟩ := ih h
    refine ⟨?_, fun hclauses ↦ hfixed' (hfixed hclauses)⟩
    rw [hterms, hterm, List.forall_mem_cons, and_assoc]

theorem termsSql_eq_none_iff (clauses : Clauses) (terms : List Json) :
    terms.foldlM (termSql script) clauses = none ↔ ∃ term ∈ terms, TermRefused script term := by
  induction terms generalizing clauses with
  | nil => simp
  | cons term terms ih =>
    have hterm := @termSql_eq_none_iff script clauses term
    rw [List.foldlM_cons]
    cases hmid : termSql script clauses term with
    | none =>
      rw [hmid] at hterm
      simp [hterm.mp rfl]
    | some mid =>
      rw [hmid] at hterm
      simp only [reduceCtorEq, false_iff] at hterm
      simpa [hterm] using ih mid

end Terms

/-- The terms of a query; there are none to run through where they are no list. -/
def queryTerms (expr : List (String × Json)) : Option (List Json) :=
  if (Json.get expr "terms").truthy then
    match Json.get expr "terms" with
    | .array elements => some elements
    | _ => none
  else some []

def Refused : Json → Prop
  | .object expr => ∀ terms ∈ queryTerms expr, ∃ term ∈ terms, TermRefused script term
  | _ => True

def SortOk (sortField : Json) : Prop :=
  sortField.truthy → (sortColumns.lookup (sortField.text script.toRuntime)).isSome ∨
    Allowed (digit script.toRuntime) (sortField.text script.toRuntime)

def LimitOk (limit : Json) : Prop :=
  limit.truthy → Allowed (digit script.toRuntime) (limit.text script.toRuntime)

/-- The query has nothing that the statement takes over as it is stored. -/
def Clean : Json → Prop
  | .object expr =>
    (∀ terms ∈ queryTerms expr, ∀ term ∈ terms, ¬RawTerm script term) ∧
      SortOk script (Json.get expr "sort_field") ∧ LimitOk script (Json.get expr "limit")
  | _ => False

section Statement

variable {script}

theorem autoTerms_safe (filter : FilterRow) : ∀ part ∈ autoTerms filter, AllSafe script part := by
  intro part hpart
  obtain ⟨⟨set, term⟩, hmem, hterm⟩ := List.mem_filterMap.mp hpart
  obtain ⟨-, hpart⟩ := Option.ite_none_right_eq_some.mp hterm
  rw [← Option.some.inj hpart, allSafe_cons]
  refine ⟨safe_code ?_, allSafe_nil⟩
  simp only [List.mem_cons, Prod.mk.injEq, List.not_mem_nil, or_false] at hmem
  rcases hmem with ⟨-, rfl⟩ | ⟨-, rfl⟩ | ⟨-, rfl⟩ | ⟨-, rfl⟩ | ⟨-, rfl⟩ | ⟨-, rfl⟩ | ⟨-, rfl⟩ <;>
    decide

theorem selectSql_safe_iff (filter : FilterRow) {clauses : Clauses}
    (h : clauses.Fixed script) :
    AllSafe script (selectSql filter clauses) ↔ AllSafe script clauses.sql := by
  have hauto : AllSafe script (if autoTerms filter = [] then []
      else [.code " AND ( "] ++ joined " or " (autoTerms filter) ++ [.code " )"]) := by
    refine allSafe_ite allSafe_nil ?_
    simp (disch := decide) only [allSafe_append, allSafe_cons, allSafe_nil, safe_code,
      @allSafe_joined script _ " or " (by decide) (autoTerms_safe filter), and_self]
  by_cases hsql : clauses.sql = []
  · simp (disch := decide) only [selectSql, allSafe_append, allSafe_cons, allSafe_nil, safe_code,
      h.1, h.2, hauto, hsql, if_true, and_self]
  · simp (disch := decide) only [selectSql, allSafe_append, allSafe_cons, allSafe_nil, safe_code,
      h.1, h.2, hauto, hsql, if_false, true_and, and_true]

theorem lockSql_safe (filter : FilterRow) (skipLocked : Json) :
    AllSafe script (lockSql filter skipLocked) := by
  rw [lockSql]
  exact allSafe_ite (by simp (disch := decide +kernel)) allSafe_nil

theorem orderSql_safe_iff (sortField sortAsc : Json) :
    AllSafe script (orderSql script sortField sortAsc) ↔ SortOk script sortField := by
  by_cases htruthy : sortField.truthy
  · have hway : (Piece.code (if sortAsc.truthy then " ASC" else " DESC")).Safe script := by
      apply safe_code
      split <;> decide
    cases hcolumn : sortColumns.lookup (sortField.text script.toRuntime) with
    | none => simp (disch := decide) [orderSql, SortOk, htruthy, hcolumn, hway]
    | some column =>
      have hfixed : (Piece.code column).Safe script :=
        safe_code (List.mem_append_right _ (List.mem_map_of_mem (Lib.mem_of_lookup hcolumn)))
      simp (disch := decide) [orderSql, SortOk, htruthy, hcolumn, hway, hfixed]
  · simp [orderSql, SortOk, htruthy]

theorem limitSql_safe_iff (limit : Json) :
    AllSafe script (limitSql script limit) ↔ LimitOk script limit := by
  by_cases htruthy : limit.truthy <;> simp (disch := decide) [limitSql, LimitOk, htruthy]

theorem head?_selected (filter : FilterRow) (clauses : Clauses) (skipLocked : Json)
    (order limit : List Piece) {c : Prop} [Decidable c] :
    ((if c then selectSql filter clauses.joinMonitors
      else selectSql filter clauses ++ lockSql filter skipLocked) ++ order ++ limit).head? =
      some (.code " SELECT ") := by
  by_cases hc : c <;> simp [hc, selectSql]

theorem clauses_fixed : Clauses.Fixed script {} := by simp (disch := decide) [Clauses.Fixed]

theorem filterSql_object (filter : FilterRow) (expr : List (String × Json)) :
    filterSql script filter (.object expr) = do
      let clauses ← (queryTerms expr).bind (fun terms ↦ terms.foldlM (termSql script) {})
      let sortField := Json.get expr "sort_field"
      let selected :=
        if sortField.text script.toRuntime = "MonitorName" ∧ clauses.monitorName = false then
          selectSql filter clauses.joinMonitors
        else selectSql filter clauses ++ lockSql filter (Json.get expr "skip_locked")
      return selected ++ orderSql script sortField (Json.get expr "sort_asc") ++
        limitSql script (Json.get expr "limit") := by
  simp only [filterSql, queryTerms]
  by_cases htruthy : (Json.get expr "terms").truthy
  · rw [if_pos htruthy, if_pos htruthy]
    cases Json.get expr "terms" <;> rfl
  · rw [if_neg htruthy, if_neg htruthy]
    rfl

/-- Joining the monitors for the sort leaves the part after `WHERE` as it is. -/
theorem selected_safe_iff (filter : FilterRow) {clauses : Clauses} (h : clauses.Fixed script)
    (skipLocked : Json) {c : Prop} [Decidable c] :
    AllSafe script (if c then selectSql filter clauses.joinMonitors
      else selectSql filter clauses ++ lockSql filter skipLocked) ↔ AllSafe script clauses.sql := by
  by_cases hc : c
  · rw [if_pos hc, selectSql_safe_iff filter h.joinMonitors, Clauses.joinMonitors]
    split_ifs <;> exact Iff.rfl
  · rw [if_neg hc, allSafe_append, selectSql_safe_iff filter h]
    simp [lockSql_safe]

end Statement

/-- What is no query of the right kind is refused; else the statement is safe exactly if the
query is clean. -/
theorem filterSql_safe_iff (hscript : script.Documented) (filter : FilterRow) (query : Json) :
    (∀ pieces ∈ filterSql script filter query,
        pieces.head? = some (.code " SELECT ") ∧ AllSafe script pieces) ↔
      Refused script query ∨ Clean script query := by
  cases query with
  | null | bool | number | string | array => simp [filterSql, Refused]
  | object expr =>
    rw [filterSql_object]
    cases hterms : queryTerms expr with
    | none => simp [Refused, hterms]
    | some terms =>
      have hrefused := @termsSql_eq_none_iff script {} terms
      cases hclauses : terms.foldlM (termSql script) {} with
      | none =>
        rw [hclauses] at hrefused
        simp [Refused, hterms, hclauses, hrefused.mp rfl]
      | some clauses =>
        rw [hclauses] at hrefused
        simp only [reduceCtorEq, false_iff] at hrefused
        obtain ⟨hsafe, hfixed⟩ := termsSql_safe_iff hscript hclauses
        have hselected := selected_safe_iff filter (hfixed clauses_fixed)
          (Json.get expr "skip_locked")
          (c := (Json.get expr "sort_field").text script.toRuntime = "MonitorName" ∧
            clauses.monitorName = false)
        have hnot : ¬Refused script (.object expr) := by simpa [Refused, hterms] using hrefused
        have hclean : Clean script (.object expr) ↔ (∀ term ∈ terms, ¬RawTerm script term) ∧
            SortOk script (Json.get expr "sort_field") ∧
              LimitOk script (Json.get expr "limit") := by
          simp [Clean, hterms]
        rw [or_iff_right hnot, hclean]
        simp only [hclauses, Option.bind_eq_bind, Option.bind_some, Option.pure_def,
          Option.mem_some, forall_eq', allSafe_append, hselected, hsafe, orderSql_safe_iff,
          limitSql_safe_iff]
        have hhead := head?_selected filter clauses (Json.get expr "skip_locked")
          (orderSql script (Json.get expr "sort_field") (Json.get expr "sort_asc"))
          (limitSql script (Json.get expr "limit"))
          (c := (Json.get expr "sort_field").text script.toRuntime = "MonitorName" ∧
            clauses.monitorName = false)
        simp only [hhead, allSafe_nil, true_and, and_assoc]

/-- A script without wide characters, a server or dates. -/
def plainScript : Script where
  wideDigit _ := false
  wideSpace _ := false
  address _ := "55d0c2a4e6b8"
  repeatCount _ := 0
  quote text := "'" ++ text ++ "'"
  int _ := "0"
  dateTimeToSQL _ := none
  nextDay _ := "2026-01-02 00:00:00"
  serverId := none

theorem plainScript_documented : plainScript.Documented where
  int := by
    intro text
    have hzero : (plainScript.int text).toList = ['0'] := by
      show "0".toList = ['0']
      decide
    exact ⟨[], by simp, ['0'], hzero,
      .inr ⟨['0'], [], [], rfl, by simp, List.all_eq_true.mp (by decide), .inl rfl, .inl rfl⟩⟩
  dateTime := by
    intro text date hdate
    cases hdate
  nextDay := by
    intro day
    have hdate : "2026-01-02 00:00:00".toList.all dateChar := by decide
    exact List.all_eq_true.mp hdate

def idleFilter : FilterRow where
  autoArchive := false
  autoUnarchive := false
  autoVideo := false
  autoUpload := false
  autoEmail := false
  autoMessage := false
  autoExecute := false
  lockRows := false

def monitorQuery : Json :=
  .object
    [("terms", .array [.object
      [("attr", .string "MonitorId"), ("op", .string "="), ("val", .string "1,2")]]),
      ("sort_field", .string "Id"), ("limit", .number "100")]

def monitorSql : String :=
  " SELECT E.*, unix_timestamp(E.StartDateTime) AS Time, M.Name as MonitorName FROM Events AS E " ++
    "INNER JOIN Monitors as M on M.Id = E.MonitorId WHERE (  M.Id = 2\n ) ORDER BY E.Id DESC " ++
      "LIMIT 0,100"

theorem filterSql_monitorQuery : ∃ pieces,
    filterSql plainScript idleFilter monitorQuery = some pieces ∧
    render plainScript pieces = monitorSql ∧
    pieces.head? = some (.code " SELECT ") ∧ AllSafe plainScript pieces := by
  have hclean : Clean plainScript monitorQuery := by
    refine ⟨?_, fun _ ↦ .inl (by decide), fun _ ↦ .inl (plainNumber_number (by decide))⟩
    intro terms hterms term hterm hraw
    obtain rfl := Option.some.inj (hterms : some _ = some terms)
    obtain rfl := List.mem_singleton.mp hterm
    exact absurd hraw.2.2.2.2.2 (by decide)
  have hsql : ((filterSql plainScript idleFilter monitorQuery).any fun pieces ↦
      render plainScript pieces = monitorSql) = true := by
    decide +kernel
  obtain ⟨pieces, hpieces, hrender⟩ := (Option.any_eq_true _ _).mp hsql
  exact ⟨pieces, hpieces, of_decide_eq_true hrender,
    (filterSql_safe_iff plainScript plainScript_documented idleFilter monitorQuery).mpr
      (.inr hclean) pieces hpieces⟩

/-- The column to sort by is no column. -/
def sleepQuery : Json := .object [("terms", .array []), ("sort_field", .string "Id,SLEEP(5)")]

theorem filterSql_sleepQuery :
    ¬∀ script : Script, script.Documented → ∀ (filter : FilterRow) (query : Json),
      ∀ pieces ∈ filterSql script filter query,
        pieces.head? = some (.code " SELECT ") ∧ AllSafe script pieces := by
  intro h
  have hsql : filterSql plainScript idleFilter sleepQuery =
      some ([.code " SELECT ", .code "E.*, unix_timestamp(E.StartDateTime) AS Time",
        .code " FROM ", .code "Events AS E", .code " ORDER BY ", .code "E.",
        .user "Id,SLEEP(5)", .code " DESC"]) := by
    decide
  have hsafe := (h plainScript plainScript_documented idleFilter sleepQuery _ hsql).2
  have hallowed : (Piece.user "Id,SLEEP(5)").Safe plainScript := hsafe _ (by decide)
  exact (safe_user _ |>.mp hallowed).comma_not_mem (by decide)

end ZoneMinder.Filter
