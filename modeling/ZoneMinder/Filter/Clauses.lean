import Mathlib.Tactic.IntervalCases
import ZoneMinder.Filter.Injection

namespace ZoneMinder.Filter

open Perl

/-- A query by its clauses. -/
structure Select where
  fields : List Piece
  tables : List Piece
  conditions : List (List Piece)
  order : List Piece
  limit : List Piece

def whereSql (conditions : List (List Piece)) : List Piece :=
  if conditions = [] then [] else [.code " WHERE "] ++ joined " AND " conditions

def Select.sql (select : Select) : List Piece :=
  [.code " SELECT "] ++ select.fields ++ [.code " FROM "] ++ select.tables ++
    whereSql select.conditions ++ select.order ++ select.limit

/-- The names that a part of `FROM` gives to tables. -/
def aliases : Piece → List String
  | .code text =>
    if text = "Events AS E" then ["E"]
    else if text = monitorJoin then ["M"]
    else if text = tagsJoin then ["ET", "T"]
    else []
  | _ => []

def Select.aliases (select : Select) : List String := select.tables.flatMap Filter.aliases

def columnTable (column : String) : String :=
  String.ofList (column.toList.takeWhile (fun c ↦ c ≠ '.'))

/-- No two tables have one name, and that of the column to sort by is among them. -/
structure Select.WellJoined (select : Select) (column : Option String) : Prop where
  nodup : select.aliases.Nodup
  sort : ∀ c ∈ column, columnTable c ∈ select.aliases

variable (script : Script)

/-- A term that becomes SQL. -/
def ValidTerm (term : Json) : Prop :=
  ∃ fields, term = .object fields ∧ (Json.get fields "attr").truthy ∧ ¬TermRefused script term

def attrOf : Json → String
  | .object fields => termAttr script fields
  | _ => ""

/-- What a term adds to the condition, its conjunction and its brackets among it. -/
def termPieces (term : Json) : List Piece := ((termSql script {} term).map Clauses.sql).getD []

def joinsMonitors (attr : String) : Bool := isMonitorAttr attr || attr = "ServerId"

/-- Events that another filter works on are to be left out. -/
def skipsLocked (filter : FilterRow) (expr : List (String × Json)) : Bool :=
  filter.lockRows && (Json.get expr "skip_locked").truthy

def sortText (expr : List (String × Json)) : String :=
  (Json.get expr "sort_field").text script.toRuntime

def sortColumn (expr : List (String × Json)) : Option String :=
  if (Json.get expr "sort_field").truthy then sortColumns.lookup (sortText script expr) else none

/-- The terms, the automatic conditions and the exclusion of locked events, as far as there are
any. -/
def conditions (filter : FilterRow) (expr : List (String × Json)) (terms : List Json) :
    List (List Piece) :=
  (if terms = [] then []
    else [[.code "( "] ++ terms.flatMap (termPieces script) ++ [.code " )"]]) ++
  (if autoTerms filter = [] then []
    else [[.code "( "] ++ joined " or " (autoTerms filter) ++ [.code " )"]]) ++
  if skipsLocked filter expr then
    [[.code ("NOT EXISTS (SELECT 1 FROM Events_Lock AS EL WHERE EL.EventId=E.Id " ++
      "AND EL.ExpiresAt>NOW())")]]
  else []

/-- The tables that the terms need, and the monitors where their names sort. -/
def joins (expr : List (String × Json)) (terms : List Json) : Clauses :=
  let joined := (terms.map (attrOf script)).foldl Clauses.join {}
  if sortText script expr = "MonitorName" then joined.joinMonitors else joined

def selectOf (filter : FilterRow) (expr : List (String × Json)) (terms : List Json) : Select where
  fields := (joins script expr terms).fields
  tables := (joins script expr terms).tables
  conditions := conditions script filter expr terms
  order := orderSql script (Json.get expr "sort_field") (Json.get expr "sort_asc")
  limit := limitSql script (Json.get expr "limit")

/-- The statement is the query with all its clauses, and the query is one. The terms are as they are
written, each with its own conjunction and brackets. -/
def KeepsClauses (filter : FilterRow) (expr : List (String × Json)) (terms : List Json) : Prop :=
  ∃ pieces, filterSql script filter (.object expr) = some pieces ∧
    render script pieces = render script (selectOf script filter expr terms).sql ∧
    (selectOf script filter expr terms).WellJoined (sortColumn script expr)

variable {script} {filter : FilterRow} {expr : List (String × Json)} {terms : List Json}
  {term : Json} {clauses clauses' : Clauses} {attrs : List String}

section Terms

theorem termStart_ne_nil (fields : List (String × Json)) : termStart script fields ≠ [] := by
  simp [termStart]

/-- Two statements that have joined the same tables. -/
structure SameJoins (clauses clauses' : Clauses) : Prop where
  fields : clauses.fields = clauses'.fields
  tables : clauses.tables = clauses'.tables
  monitorName : clauses.monitorName = clauses'.monitorName

theorem SameJoins.join (h : SameJoins clauses clauses') (attr : String) :
    SameJoins (clauses.join attr) (clauses'.join attr) := by
  simp only [Clauses.join, Clauses.joinMonitors, h.fields, h.tables, h.monitorName]
  split_ifs
  · exact ⟨rfl, rfl, rfl⟩
  · exact h
  · exact ⟨rfl, rfl, rfl⟩
  · exact h

/-- A term adds the same pieces to every statement, and joins what its attribute needs. -/
theorem termSql_of_valid (h : ValidTerm script term) (clauses : Clauses) :
    termPieces script term ≠ [] ∧
      termSql script clauses term =
        some ((clauses.join (attrOf script term)).add (termPieces script term)) := by
  obtain ⟨fields, rfl, hattr, hrefused⟩ := h
  have hsome (clauses : Clauses) : termSql script clauses (.object fields) ≠ none := by
    rw [Ne, termSql_eq_none_iff]
    exact hrefused
  have hchecked : ¬(cleanAttr (termAttr script fields) = false ∨
      (termOp script fields ≠ "" ∧ termOp script fields ∉ validOps)) := by
    intro hbad
    apply hsome clauses
    rw [termSql, if_neg (by simp [hattr]), if_pos hbad]
  obtain ⟨condition, hcondition⟩ : ∃ condition, conditionSql script (termAttr script fields)
      (termOp script fields) (termVal script fields) = some condition := by
    rw [← Option.ne_none_iff_exists']
    intro hnone
    apply hsome clauses
    rw [termSql, if_neg (by simp [hattr]), if_neg hchecked]
    simp [hnone]
  have hterm (clauses : Clauses) : termSql script clauses (.object fields) =
      some ((clauses.join (termAttr script fields)).add
        (termStart script fields ++ attrSql script (termAttr script fields) (termOp script fields)
          (termVal script fields = "0" ∨ termVal script fields = "-1") ++ condition ++
            termEnd script fields)) := by
    rw [termSql, if_neg (by simp [hattr]), if_neg hchecked]
    simp [hcondition]
  have hpieces : termPieces script (.object fields) =
      termStart script fields ++ attrSql script (termAttr script fields) (termOp script fields)
        (termVal script fields = "0" ∨ termVal script fields = "-1") ++ condition ++
          termEnd script fields := by
    simp [termPieces, hterm, Clauses.add, join_sql]
  refine ⟨?_, ?_⟩
  · rw [hpieces]
    simp [termStart_ne_nil]
  · rw [hterm, hpieces]
    rfl

theorem foldlM_termSql (h : ∀ term ∈ terms, ValidTerm script term) (clauses : Clauses) :
    ∃ clauses', terms.foldlM (termSql script) clauses = some clauses' ∧
      clauses'.sql = clauses.sql ++ terms.flatMap (termPieces script) ∧
      SameJoins clauses' ((terms.map (attrOf script)).foldl Clauses.join clauses) := by
  induction terms generalizing clauses with
  | nil => exact ⟨clauses, rfl, by simp, ⟨rfl, rfl, rfl⟩⟩
  | cons term terms ih =>
    rw [List.forall_mem_cons] at h
    obtain ⟨clauses', hfold, hsql, hjoins⟩ :=
      ih h.2 ((clauses.join (attrOf script term)).add (termPieces script term))
    refine ⟨clauses', ?_, ?_, ?_⟩
    · rw [List.foldlM_cons, (termSql_of_valid h.1 clauses).2]
      exact hfold
    · rw [hsql, Clauses.add, join_sql, List.flatMap_cons, List.append_assoc]
    · have hsame : ∀ (attrs : List String) (clauses clauses' : Clauses), SameJoins clauses clauses' →
          SameJoins (attrs.foldl Clauses.join clauses) (attrs.foldl Clauses.join clauses') := by
        intro attrs
        induction attrs with
        | nil => exact fun _ _ h ↦ h
        | cons attr attrs ih => exact fun _ _ h ↦ ih _ _ (h.join attr)
      have hadd := hsame (terms.map (attrOf script))
        ((clauses.join (attrOf script term)).add (termPieces script term))
        (clauses.join (attrOf script term)) ⟨rfl, rfl, rfl⟩
      rw [List.map_cons, List.foldl_cons]
      exact ⟨hjoins.fields.trans hadd.fields, hjoins.tables.trans hadd.tables,
        hjoins.monitorName.trans hadd.monitorName⟩

end Terms

section Joins

def Clauses.aliases (clauses : Clauses) : List String := clauses.tables.flatMap Filter.aliases

theorem aliases_joinMonitors (clauses : Clauses) :
    clauses.joinMonitors.aliases =
        clauses.aliases ++ (if clauses.monitorName then [] else ["M"]) ∧
      clauses.joinMonitors.monitorName = true := by
  have hmonitors : Filter.aliases (.code monitorJoin) = ["M"] := by decide
  rw [Clauses.joinMonitors]
  cases hname : clauses.monitorName with
  | true => simp [hname]
  | false => simp [Clauses.aliases, hmonitors]

theorem aliases_join (clauses : Clauses) (attr : String) :
    (clauses.join attr).aliases = clauses.aliases ++
        (if attr = "Tags" then ["ET", "T"]
          else if joinsMonitors attr ∧ clauses.monitorName = false then ["M"] else []) ∧
      (clauses.join attr).monitorName = (clauses.monitorName || joinsMonitors attr) := by
  have htags : Filter.aliases (.code tagsJoin) = ["ET", "T"] := by decide
  have hjoins : (isMonitorAttr attr = true ∨ attr = "ServerId") ↔ joinsMonitors attr := by
    simp [joinsMonitors]
  rw [Clauses.join]
  by_cases hattr : attr = "Tags"
  · subst hattr
    have hnot : joinsMonitors "Tags" = false := by decide
    simp [Clauses.aliases, htags, hnot]
  rw [if_neg hattr, if_neg hattr]
  by_cases hmonitors : joinsMonitors attr
  · rw [if_pos (hjoins.mpr hmonitors), (aliases_joinMonitors clauses).1,
      (aliases_joinMonitors clauses).2]
    cases clauses.monitorName <;> simp [hmonitors]
  · rw [if_neg (fun h ↦ hmonitors (hjoins.mp h))]
    simp [hmonitors]

/-- The tags once for every term on them, the monitors once for all. -/
theorem aliases_joined (attrs : List String) (clauses : Clauses) :
    (attrs.foldl Clauses.join clauses).aliases.Perm
        (clauses.aliases ++ (List.replicate (attrs.count "Tags") ["ET", "T"]).flatten ++
          (if clauses.monitorName = false ∧ attrs.any joinsMonitors then ["M"] else [])) ∧
      (attrs.foldl Clauses.join clauses).monitorName =
        (clauses.monitorName || attrs.any joinsMonitors) := by
  induction attrs generalizing clauses with
  | nil => simp
  | cons attr attrs ih =>
    obtain ⟨hperm, hname⟩ := ih (clauses.join attr)
    obtain ⟨haliases, hjoined⟩ := aliases_join clauses attr
    refine ⟨?_, ?_⟩
    · rw [List.foldl_cons]
      refine hperm.trans ?_
      rw [haliases, hjoined]
      by_cases hattr : attr = "Tags"
      · subst hattr
        have hnot : joinsMonitors "Tags" = false := by decide
        rw [List.count_cons_self, List.replicate_succ, List.flatten_cons]
        simp [hnot]
      · rw [if_neg hattr, List.count_cons_of_ne hattr]
        cases hmonitors : joinsMonitors attr with
        | false => simp [hmonitors]
        | true =>
          cases hflag : clauses.monitorName with
          | true => simp
          | false =>
            simp only [hmonitors, Bool.false_or, Bool.true_eq_false, false_and, if_false, true_and,
              if_true, List.any_cons, Bool.true_or, List.append_nil, List.append_assoc]
            exact List.Perm.append_left _ List.perm_append_comm
    · rw [List.foldl_cons, hname, hjoined, List.any_cons, Bool.or_assoc]

theorem aliases_selectOf :
    (selectOf script filter expr terms).aliases.Perm
      ("E" :: (List.replicate ((terms.map (attrOf script)).count "Tags") ["ET", "T"]).flatten ++
        (if (terms.map (attrOf script)).any joinsMonitors ∨ sortText script expr = "MonitorName" then
          ["M"] else [])) := by
  obtain ⟨hperm, hname⟩ := aliases_joined (terms.map (attrOf script)) {}
  have hbase : Clauses.aliases {} = ["E"] := by decide
  rw [hbase] at hperm
  change (joins script expr terms).aliases.Perm _
  rw [joins]
  by_cases hsort : sortText script expr = "MonitorName"
  · simp only [hsort, if_true, or_true]
    rw [(aliases_joinMonitors _).1, hname]
    cases hany : (terms.map (attrOf script)).any joinsMonitors with
    | true => simpa [hany] using hperm
    | false =>
      have happend := hperm.append_right ["M"]
      simpa [hany] using happend
  · simpa [hsort] using hperm

theorem nodup_aliases_iff {n : ℕ} {more : List String} (h : more = [] ∨ more = ["M"]) :
    ("E" :: (List.replicate n ["ET", "T"]).flatten ++ more).Nodup ↔ n ≤ 1 := by
  constructor
  · intro hnodup
    by_contra hn
    obtain ⟨k, rfl⟩ : ∃ k, n = k + 2 := ⟨n - 2, by omega⟩
    simp [List.replicate_succ] at hnodup
  · intro hn
    interval_cases n <;> rcases h with rfl | rfl <;> decide

theorem mem_aliases_iff {n : ℕ} {more : List String} (h : more = [] ∨ more = ["M"]) :
    "T" ∈ "E" :: (List.replicate n ["ET", "T"]).flatten ++ more ↔ 0 < n := by
  have hmore : "T" ∉ more := by
    rcases h with rfl | rfl <;> decide
  cases n with
  | zero => simp [hmore]
  | succ n => simp [List.replicate_succ]

theorem columnTable_of_lookup {text column : String} (h : sortColumns.lookup text = some column) :
    columnTable column = "E" ∧ text ≠ "Tag" ∨ columnTable column = "T" ∧ text = "Tag" ∨
      columnTable column = "M" ∧ text = "MonitorName" ∧ text ≠ "Tag" := by
  obtain ⟨before, after, hlist, -⟩ := List.lookup_eq_some_iff.mp h
  have hmem : (text, column) ∈ sortColumns := by
    rw [hlist]
    simp
  simp only [sortColumns, List.mem_cons, List.not_mem_nil, or_false, Prod.mk.injEq] at hmem
  rcases hmem with ⟨rfl, rfl⟩ | ⟨rfl, rfl⟩ | ⟨rfl, rfl⟩ | ⟨rfl, rfl⟩ | ⟨rfl, rfl⟩ | ⟨rfl, rfl⟩ |
    ⟨rfl, rfl⟩ | ⟨rfl, rfl⟩ | ⟨rfl, rfl⟩ | ⟨rfl, rfl⟩ | ⟨rfl, rfl⟩ | ⟨rfl, rfl⟩ | ⟨rfl, rfl⟩ |
    ⟨rfl, rfl⟩ | ⟨rfl, rfl⟩ <;> decide

theorem wellJoined_iff :
    (selectOf script filter expr terms).WellJoined (sortColumn script expr) ↔
      ((Json.get expr "sort_field").truthy → sortText script expr = "Tag" →
        "Tags" ∈ terms.map (attrOf script)) ∧ (terms.map (attrOf script)).count "Tags" ≤ 1 := by
  have hperm := @aliases_selectOf script filter expr terms
  generalize hmore : (if (terms.map (attrOf script)).any joinsMonitors ∨
    sortText script expr = "MonitorName" then ["M"] else [] : List String) = more at hperm
  have hcases : more = [] ∨ more = ["M"] := by
    rw [← hmore]
    split_ifs <;> simp
  have hnodup := hperm.nodup_iff.trans (nodup_aliases_iff hcases)
  have htags := (hperm.mem_iff (a := "T")).trans (mem_aliases_iff hcases)
  have hevents : "E" ∈ (selectOf script filter expr terms).aliases :=
    hperm.mem_iff.mpr (by simp)
  constructor
  · intro h
    refine ⟨?_, hnodup.mp h.nodup⟩
    intro htruthy htag
    have hcolumn : "T.Name" ∈ sortColumn script expr := by
      rw [sortColumn, if_pos htruthy, htag]
      rfl
    rw [← List.count_pos_iff]
    exact htags.mp (h.sort _ hcolumn)
  · rintro ⟨htag, hcount⟩
    refine ⟨hnodup.mpr hcount, ?_⟩
    intro column hcolumn
    rw [sortColumn, Option.mem_def, Option.ite_none_right_eq_some] at hcolumn
    obtain ⟨htruthy, hlookup⟩ := hcolumn
    rcases columnTable_of_lookup hlookup with ⟨htable, -⟩ | ⟨htable, htext⟩ | ⟨htable, htext, -⟩
    · rw [htable]
      exact hevents
    · rw [htable]
      exact htags.mpr (List.count_pos_iff.mpr (htag htruthy htext))
    · rw [htable, hperm.mem_iff, ← hmore, if_pos (.inr htext)]
      simp

end Joins

section Conditions

/-- Sorting by the names of monitors that no term has joined makes the statement anew. -/
def Remade (script : Script) (expr : List (String × Json)) (attrs : List String) : Prop :=
  sortText script expr = "MonitorName" ∧ attrs.any joinsMonitors = false

instance (expr : List (String × Json)) (attrs : List String) :
    Decidable (Remade script expr attrs) :=
  inferInstanceAs (Decidable (_ ∧ _))

/-- What the script writes where the conditions are to stand. -/
def writtenConditions (script : Script) (filter : FilterRow) (expr : List (String × Json))
    (terms : List Json) : List Piece :=
  (if terms = [] then []
    else [.code " WHERE ( "] ++ terms.flatMap (termPieces script) ++ [.code " )"]) ++
  (if autoTerms filter = [] then []
    else [.code " AND ( "] ++ joined " or " (autoTerms filter) ++ [.code " )"]) ++
  if Remade script expr (terms.map (attrOf script)) then []
  else lockSql filter (Json.get expr "skip_locked")

theorem filterSql_of_valid (hterms : queryTerms expr = some terms)
    (h : ∀ term ∈ terms, ValidTerm script term) :
    filterSql script filter (.object expr) =
      some ([.code " SELECT "] ++ (joins script expr terms).fields ++ [.code " FROM "] ++
        (joins script expr terms).tables ++ writtenConditions script filter expr terms ++
        (selectOf script filter expr terms).order ++ (selectOf script filter expr terms).limit) := by
  obtain ⟨clauses, hfold, hsql, hjoins⟩ := foldlM_termSql h {}
  have hname : clauses.monitorName = (terms.map (attrOf script)).any joinsMonitors := by
    rw [hjoins.monitorName, (aliases_joined _ _).2]
    rfl
  have hsql' : clauses.sql = terms.flatMap (termPieces script) := by simpa using hsql
  have hnil : clauses.sql = [] ↔ terms = [] := by
    rw [hsql']
    cases terms with
    | nil => simp
    | cons term terms =>
      have hpieces := (termSql_of_valid (h term List.mem_cons_self) {}).1
      simp [hpieces]
  have hwhere : (if clauses.sql = [] then []
      else [Piece.code " WHERE ( "] ++ clauses.sql ++ [.code " )"]) =
      if terms = [] then []
      else [.code " WHERE ( "] ++ terms.flatMap (termPieces script) ++ [.code " )"] := by
    rw [← hsql']
    simp only [hnil]
  have hmonitors : SameJoins clauses.joinMonitors
      ((terms.map (attrOf script)).foldl Clauses.join {}).joinMonitors := by
    simp only [Clauses.joinMonitors, hjoins.fields, hjoins.tables, hjoins.monitorName]
    split_ifs
    · exact hjoins
    · exact ⟨rfl, rfl, rfl⟩
  have hjoined : clauses.joinMonitors.sql = clauses.sql := by
    rw [Clauses.joinMonitors]
    split_ifs <;> rfl
  rw [filterSql_object, hterms]
  simp only [Option.bind_some, hfold, Option.bind_eq_bind, Option.pure_def]
  by_cases hremade : Remade script expr (terms.map (attrOf script))
  · have hsort : (Json.get expr "sort_field").text script.toRuntime = "MonitorName" := hremade.1
    have hno : clauses.monitorName = false := by rw [hname, hremade.2]
    rw [if_pos ⟨hsort, hno⟩]
    simp only [writtenConditions, if_pos hremade, selectSql, hjoined, hwhere, hmonitors.fields,
      hmonitors.tables, joins, sortText, hsort, if_true, selectOf]
    simp
  · have hnot : ¬((Json.get expr "sort_field").text script.toRuntime = "MonitorName" ∧
        clauses.monitorName = false) := by
      rw [hname]
      exact hremade
    rw [if_neg hnot]
    have hsame : SameJoins clauses (joins script expr terms) := by
      rw [joins]
      by_cases hsort : sortText script expr = "MonitorName"
      · have hflag : clauses.monitorName = true := by
          rw [← Bool.not_eq_false]
          exact fun hflag ↦ hnot ⟨hsort, hflag⟩
        rw [hjoins.monitorName] at hflag
        simp only [hsort, if_true]
        rw [Clauses.joinMonitors, if_pos hflag]
        exact hjoins
      · simpa only [hsort, if_false] using hjoins
    simp only [writtenConditions, if_neg hremade, selectSql, hwhere, hsame.fields, hsame.tables,
      selectOf]
    simp

theorem render_code (text : String) : render script [.code text] = text := by
  simp [render, Piece.render]

theorem joined_cons (separator : String) (part : List Piece) (parts : List (List Piece)) :
    joined separator (part :: parts) = part ++ parts.flatMap (fun part ↦ [.code separator] ++ part) := by
  induction parts generalizing part with
  | nil => simp [joined]
  | cons part' parts ih =>
    have hmore := ih part'
    rw [joined] at hmore
    rw [joined, List.intersperse_cons_cons, List.flatten_cons, List.flatten_cons, hmore,
      List.flatMap_cons]
    rfl

/-- The automatic conditions among those that come after the first. -/
theorem render_autoTerms (filter : FilterRow) :
    render script (if autoTerms filter = [] then []
        else [.code " AND ( "] ++ joined " or " (autoTerms filter) ++ [.code " )"]) =
      render script ((if autoTerms filter = [] then []
        else [[.code "( "] ++ joined " or " (autoTerms filter) ++ [.code " )"]]).flatMap
          (fun part ↦ [.code " AND "] ++ part)) := by
  have hopening : " AND ( " = " AND " ++ "( " := by decide
  split_ifs with hauto
  · rfl
  · simp only [List.flatMap_singleton, render_append, render_code, hopening, String.append_assoc]

theorem render_lockSql (filter : FilterRow) (expr : List (String × Json)) :
    render script (lockSql filter (Json.get expr "skip_locked")) =
      render script ((if skipsLocked filter expr then
          [[.code ("NOT EXISTS (SELECT 1 FROM Events_Lock AS EL WHERE EL.EventId=E.Id " ++
            "AND EL.ExpiresAt>NOW())")]]
        else []).flatMap (fun part ↦ [.code " AND "] ++ part)) := by
  have hlock : " AND NOT EXISTS (SELECT 1 FROM Events_Lock AS EL WHERE EL.EventId=E.Id " ++
      "AND EL.ExpiresAt>NOW())" = " AND " ++
        ("NOT EXISTS (SELECT 1 FROM Events_Lock AS EL WHERE EL.EventId=E.Id " ++
          "AND EL.ExpiresAt>NOW())") := by
    decide +kernel
  have hskips : (filter.lockRows = true ∧ (Json.get expr "skip_locked").truthy = true) ↔
      skipsLocked filter expr = true := by
    simp [skipsLocked]
  rw [lockSql]
  simp only [hskips]
  split_ifs
  · rw [List.flatMap_singleton, render_append, render_code, render_code, render_code, hlock]
  · rfl

theorem render_ne_of_heads {pieces pieces' : List Piece} {text text' : String} {c c' : Char}
    (hc : text.toList[1]? = some c) (hc' : text'.toList[1]? = some c') (hne : c ≠ c') :
    render script ([.code text] ++ pieces) ≠ render script ([.code text'] ++ pieces') := by
  intro h
  rw [render_append, render_append, render_code, render_code] at h
  have hlists := congrArg (fun text : String ↦ text.toList[1]?) h
  simp only [String.toList_append] at hlists
  rw [List.getElem?_append_left (List.getElem?_eq_some_iff.mp hc).1,
    List.getElem?_append_left (List.getElem?_eq_some_iff.mp hc').1, hc, hc'] at hlists
  exact hne (Option.some.inj hlists)

/-- The conditions are written as they are meant with a term to start with, and the exclusion of
locked events kept. -/
theorem render_conditions_iff :
    render script (writtenConditions script filter expr terms) =
        render script (whereSql (conditions script filter expr terms)) ↔
      (terms = [] → autoTerms filter = [] ∧ skipsLocked filter expr = false) ∧
        (Remade script expr (terms.map (attrOf script)) → skipsLocked filter expr = false) := by
  by_cases hterms : terms = []
  · subst hterms
    have hwhere (condition : List Piece) (more : List (List Piece)) :
        whereSql (condition :: more) = [.code " WHERE "] ++ joined " AND " (condition :: more) := by
      simp [whereSql]
    have hheads (pieces pieces' : List Piece) {text : String} (htext : text.toList[1]? = some 'A') :=
      @render_ne_of_heads script pieces pieces' text " WHERE " 'A' 'W' htext rfl (by decide)
    cases hskips : skipsLocked filter expr with
    | false =>
      have hlock : lockSql filter (Json.get expr "skip_locked") = [] := by
        rw [lockSql, if_neg]
        simpa [skipsLocked] using hskips
      by_cases hauto : autoTerms filter = []
      · simp [writtenConditions, conditions, hauto, hskips, hlock, whereSql]
      · refine iff_of_false ?_ (fun h ↦ hauto (h.1 rfl).1)
        simp only [writtenConditions, conditions, hauto, hskips, hlock, if_true, if_false, ite_self,
          Bool.false_eq_true, List.nil_append, List.append_nil, hwhere, List.append_assoc]
        apply hheads
        decide
    | true =>
      have hlock : lockSql filter (Json.get expr "skip_locked") =
          [.code (" AND NOT EXISTS (SELECT 1 FROM Events_Lock AS EL WHERE EL.EventId=E.Id " ++
            "AND EL.ExpiresAt>NOW())")] ++ [] := by
        rw [lockSql, if_pos]
        · rfl
        · simpa [skipsLocked] using hskips
      simp only [reduceCtorEq, and_false, imp_false, not_true_eq_false, false_and, iff_false]
      by_cases hauto : autoTerms filter = []
      · simp only [writtenConditions, conditions, hauto, hskips, if_true, List.nil_append, hwhere]
        split_ifs
        · intro h
          have hlists := congrArg String.toList h
          rw [render_append, String.toList_append, render_code] at hlists
          exact absurd hlists (by simp [render])
        · rw [hlock]
          apply hheads
          decide +kernel
      · simp only [writtenConditions, conditions, hauto, hskips, if_true, if_false, List.nil_append,
          List.cons_append, hwhere, List.append_assoc]
        apply hheads
        decide
  · have hopening : " WHERE ( " = " WHERE " ++ "( " := by decide
    have hmeant : render script (whereSql (conditions script filter expr terms)) =
        render script ([.code " WHERE ( "] ++ terms.flatMap (termPieces script) ++ [.code " )"]) ++
          render script (if autoTerms filter = [] then []
            else [.code " AND ( "] ++ joined " or " (autoTerms filter) ++ [.code " )"]) ++
          render script (lockSql filter (Json.get expr "skip_locked")) := by
      rw [whereSql, conditions, if_neg hterms, List.append_assoc, List.singleton_append,
        if_neg (List.cons_ne_nil _ _), joined_cons, List.flatMap_append, render_autoTerms,
        render_lockSql]
      simp only [render_append, render_code, hopening, String.append_assoc]
    have hlock : render script (lockSql filter (Json.get expr "skip_locked")) = "" ↔
        skipsLocked filter expr = false := by
      have hskips : (filter.lockRows = true ∧ (Json.get expr "skip_locked").truthy = true) ↔
          skipsLocked filter expr = true := by
        simp [skipsLocked]
      rw [lockSql]
      simp only [hskips]
      cases skipsLocked filter expr with
      | false => simp [render]
      | true => simp [render_code]
    rw [hmeant, writtenConditions, if_neg hterms, render_append, render_append]
    simp only [hterms, false_imp_iff, true_and]
    by_cases hremade : Remade script expr (terms.map (attrOf script))
    · rw [if_pos hremade, ← hlock]
      simp only [hremade, true_imp_iff]
      rw [show render script [] = "" by rfl, String.append_right_inj]
      exact eq_comm
    · simp [hremade]

end Conditions

def nameTerm : Json := .object [("attr", .string "Name"), ("op", .string "="), ("val", .string "a")]

def sortedBy (column : String) (terms : List Json) : List (String × Json) :=
  [("terms", .array terms), ("sort_field", .string column), ("skip_locked", .bool true)]

def lockingFilter : FilterRow := { idleFilter with autoArchive := true, lockRows := true }

theorem nameTerm_valid : ValidTerm plainScript nameTerm := by
  refine ⟨_, rfl, by decide, ?_⟩
  rw [← termSql_eq_none_iff {}]
  decide

/-- The statement has all its clauses where a term or nothing comes before them, where it is not
made anew without the exclusion of locked events, and where the tags are joined once, and for the
sort. -/
theorem keepsClauses_iff (hterms : queryTerms expr = some terms)
    (h : ∀ term ∈ terms, ValidTerm script term) :
    KeepsClauses script filter expr terms ↔
      (terms = [] → autoTerms filter = [] ∧ skipsLocked filter expr = false) ∧
      (Remade script expr (terms.map (attrOf script)) → skipsLocked filter expr = false) ∧
      ((Json.get expr "sort_field").truthy → sortText script expr = "Tag" →
        "Tags" ∈ terms.map (attrOf script)) ∧
      (terms.map (attrOf script)).count "Tags" ≤ 1 := by
  have htext : ∀ pieces, filterSql script filter (.object expr) = some pieces →
      (render script pieces = render script (selectOf script filter expr terms).sql ↔
        render script (writtenConditions script filter expr terms) =
          render script (whereSql (conditions script filter expr terms))) := by
    intro pieces hpieces
    rw [filterSql_of_valid hterms h, Option.some.injEq] at hpieces
    subst hpieces
    simp only [Select.sql, render_append, String.append_left_inj]
    rw [show (selectOf script filter expr terms).fields = (joins script expr terms).fields from rfl,
      show (selectOf script filter expr terms).tables = (joins script expr terms).tables from rfl,
      String.append_right_inj]
    rfl
  rw [← and_assoc, ← render_conditions_iff, ← @wellJoined_iff script filter expr terms]
  constructor
  · rintro ⟨pieces, hpieces, hrender, hjoined⟩
    exact ⟨(htext pieces hpieces).mp hrender, hjoined⟩
  · rintro ⟨hconditions, hjoined⟩
    exact ⟨_, filterSql_of_valid hterms h, (htext _ (filterSql_of_valid hterms h)).mpr hconditions,
      hjoined⟩

theorem keepsClauses_locking :
    KeepsClauses plainScript lockingFilter (sortedBy "Id" [nameTerm]) [nameTerm] :=
  (keepsClauses_iff rfl (List.forall_mem_singleton.mpr nameTerm_valid)).mpr
    ⟨by decide, by decide, by decide, by decide⟩

/-- Without a term there is no `WHERE`, and sorting by the monitors' names lets locked events in. -/
theorem not_keepsClauses :
    ¬KeepsClauses plainScript lockingFilter (sortedBy "Id" []) [] ∧
      ¬KeepsClauses plainScript lockingFilter (sortedBy "MonitorName" [nameTerm]) [nameTerm] := by
  have hempty : (filterSql plainScript lockingFilter (.object (sortedBy "Id" []))).map
      (render plainScript) ≠ some (render plainScript
        (selectOf plainScript lockingFilter (sortedBy "Id" []) []).sql) := by
    decide +kernel
  have hsorted : (filterSql plainScript lockingFilter
      (.object (sortedBy "MonitorName" [nameTerm]))).map (render plainScript) ≠
      some (render plainScript
        (selectOf plainScript lockingFilter (sortedBy "MonitorName" [nameTerm]) [nameTerm]).sql) := by
    decide +kernel
  constructor
  · rintro ⟨pieces, hpieces, hrender, -⟩
    rw [hpieces, Option.map_some, hrender] at hempty
    exact hempty rfl
  · rintro ⟨pieces, hpieces, hrender, -⟩
    rw [hpieces, Option.map_some, hrender] at hsorted
    exact hsorted rfl

end ZoneMinder.Filter
