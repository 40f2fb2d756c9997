import ZoneMinder.Filter.Sql
import ZoneMinder.Lib.Literals
import ZoneMinder.Php
import Mathlib.Data.Int.Notation
import Mathlib.Data.Nat.Notation

namespace ZoneMinder.WebFilter

open Lib.Literals

/-- A number that is no integer behaves as the text it prints as. -/
inductive Scalar
  | text (s : String)
  | integer (n : ℤ)
  | yes
  | no
  deriving DecidableEq

def Scalar.print : Scalar → String
  | .text s => s
  | .integer n => String.ofList (Php.decimal n)
  | .yes => "1"
  | .no => ""

/-- `==` with a text that is no number. -/
def Scalar.looseEq : Scalar → String → Bool
  | .text s, other => s = other
  | .integer n, other => String.ofList (Php.decimal n) = other
  | .yes, other => other ≠ "" && other ≠ "0"
  | .no, other => other = "" || other = "0"

inductive Val
  | scalar (s : Scalar)
  | list (elements : List String)

/-- A term as it stands in the query. -/
structure Term where
  attr : Option String
  op : Option Scalar
  val : Option Val
  cnj : Option String
  obr : Option String
  cbr : Option String
  tablename : Option String
  collate : Option String

/-- What the page has from elsewhere: the database handle, date parsing, the members of a group,
`ZM_SERVER_ID` and the conversion of numeric texts. -/
structure Web where
  dbEscape : String → String
  intval : String → ℤ
  dateTime : String → String
  nextDay : String → String
  monitorIds : String → List ℕ
  serverId : Option ℕ
  sameAsInt : String → Bool
  repeatCount : String → Option ℕ

/-- A part of the SQL: fixed text, text that was checked against a list, a column, table or
collation, a keyword as it was written, a number, text that is quoted by the database, a date
between quotes. -/
inductive Piece
  | code (text : String)
  | listed (text : String)
  | name (text : String)
  | keyword (text : String)
  | integer (n : ℤ)
  | quoted (text : String)
  | date (text : String)
  deriving DecidableEq

variable (web : Web)

def Piece.render : Piece → List Char
  | code text => text.toList
  | listed text => text.toList
  | name text => text.toList
  | keyword text => text.toList
  | integer n => integerText n
  | quoted text => (web.dbEscape text).toList
  | date text => '\'' :: text.toList ++ ['\'']

def render (pieces : List Piece) : List Char := pieces.flatMap (Piece.render web)

theorem render_append (pieces pieces' : List Piece) :
    render web (pieces ++ pieces') = render web pieces ++ render web pieces' := List.flatMap_append

def validOps : List String :=
  ["=", "!=", ">=", "<=", ">", "<", "LIKE", "NOT LIKE", "=~", "!~", "=[]", "![]", "IN", "NOT IN",
    "EXISTS", "IS", "IS NOT"]

def validConjunctionTypes : List String := ["and", "or"]

def validTablenames : List String := ["E", "M", "S", "F", "T", "ET", "Snapshots"]

def attrChar (c : Char) : Bool := c.isAlphanum || c = '.'

def collateChar (c : Char) : Bool := c.isAlphanum || c = '_'

/-- A term whose parts were checked; what is no value goes into the SQL as it is. -/
structure FilterTerm where
  attr : String
  op : Scalar
  val : Scalar
  cnj : String
  tablename : String
  obr : Option String
  cbr : Option String
  collate : String
  attr_clean : ∀ c ∈ attr.toList, attrChar c
  op_valid : validOps.any op.looseEq
  cnj_valid : cnj = "" ∨ cnj ∈ validConjunctionTypes
  tablename_valid : tablename ∈ validTablenames
  collate_clean : ∀ c ∈ collate.toList, collateChar c

/-- `preg_replace` of every other character by nothing. -/
def keep (char : Char → Bool) (text : String) : String := String.ofList (text.toList.filter char)

theorem keep_clean (char : Char → Bool) (text : String) : ∀ c ∈ (keep char text).toList, char c := by
  intro c hc
  rw [keep, String.toList_ofList] at hc
  exact (List.mem_filter.mp hc).2

def Val.scalarOf : Val → Scalar
  | .scalar s => s
  | .list elements => .text (",".intercalate elements)

/-- What is not on the list is replaced. -/
def listedOr (list : List String) (default : String) (text : Option String) : String :=
  (text.filter (fun text ↦ text ∈ list)).getD default

theorem listedOr_mem (list : List String) (default : String) (text : Option String) :
    listedOr list default text = default ∨ listedOr list default text ∈ list := by
  cases text with
  | none => exact .inl rfl
  | some text =>
    by_cases h : text ∈ list
    · exact .inr (by simp [listedOr, Option.filter, h])
    · exact .inl (by simp [listedOr, Option.filter, h])

def checkOp (op : Scalar) : Scalar := if validOps.any op.looseEq then op else .text "="

theorem checkOp_valid (op : Scalar) : validOps.any (checkOp op).looseEq := by
  rw [checkOp]
  split_ifs with h
  · exact h
  · decide

def construct (term : Term) : FilterTerm where
  attr := keep attrChar (term.attr.getD "")
  op := checkOp (term.op.getD (.text "="))
  val := (term.val.map Val.scalarOf).getD (.text "")
  cnj := listedOr validConjunctionTypes "" term.cnj
  tablename := listedOr validTablenames "E" term.tablename
  obr := term.obr.filter web.sameAsInt
  cbr := term.cbr.filter web.sameAsInt
  collate := keep collateChar (term.collate.getD "")
  attr_clean := keep_clean attrChar _
  op_valid := checkOp_valid _
  cnj_valid := listedOr_mem validConjunctionTypes "" term.cnj
  tablename_valid := by
    rcases listedOr_mem validTablenames "E" term.tablename with h | h
    · rw [h]
      decide
    · exact h
  collate_clean := keep_clean collateChar _

def upper (text : String) : String := String.ofList (text.toList.map Char.toUpper)

/-- The values that a value is split into. -/
def values (val : Scalar) : List String :=
  (Filter.splitFields Php.space (Filter.stripQuotes val.print.toList)).map String.ofList

variable (term : FilterTerm)

def textAttr (attr : String) : Bool := attr ∈ ["Tags", "MonitorName", "Name", "Cause", "Notes"]

def serverAttr (attr : String) : Bool :=
  attr ∈ ["MonitorServerId", "FilterServerId", "StorageServerId", "ServerId"]

def dateTimeAttr (attr : String) : Bool :=
  attr ∈ ["CurrentDateTime", "DateTime", "StartDateTime", "EndDateTime"]

def dateAttr (attr : String) : Bool := attr ∈ ["CurrentDate", "Date", "StartDate", "EndDate"]

def timeAttr (attr : String) : Bool := attr ∈ ["CurrentTime", "Time", "StartTime", "EndTime"]

/-- Some terms have no SQL of their own. -/
def silentAttr (attr : String) : Bool := attr ∈ ["ExistsInFileSystem", "DiskPercent"]

/-- The operators that `LIKE` is part of. -/
def isLike (op : Scalar) : Bool := op.print ∈ ["LIKE", "NOT LIKE"]

def sqlValue (value : String) : List Piece :=
  if term.attr = "AlarmedZoneId" then
    [.code "(SELECT * FROM Stats WHERE EventId=E.Id AND ZoneId=", .integer (web.intval value),
      .code " AND Score > 0 LIMIT 1)"]
  else if silentAttr term.attr then []
  else if textAttr term.attr then
    [.quoted (if isLike term.op ∧ '%' ∉ term.val.print.toList then "%" ++ value ++ "%" else value)]
  else if serverAttr term.attr then
    if value = "ZM_SERVER_ID" then [.integer (web.serverId.getD 0)]
    else if upper value = "NULL" then [.keyword value]
    else [.quoted value]
  else if term.attr = "StorageId" then
    if upper value = "NULL" then [.keyword value] else [.quoted value]
  else if dateTimeAttr term.attr then
    if upper value = "CURDATE()" ∨ upper value = "NOW()" then [.keyword value]
    else if upper value = "NULL" then [.keyword value]
    else [.date (web.dateTime value)]
  else if dateAttr term.attr then
    if upper value = "CURDATE()" ∨ upper value = "NOW()" then
      if term.attr = "CurrentDate" then [.code "to_days(", .keyword value, .code ")"]
      else [.keyword value]
    else if upper value = "NULL" then [.keyword value]
    else if term.attr = "CurrentDate" then
      [.code "to_days(", .date (web.dateTime value), .code ")"]
    else [.date (web.dateTime value)]
  else if timeAttr term.attr then
    if upper value = "NULL" then [.keyword value]
    else [.code "extract(hour_second from ", .date (web.dateTime value), .code ")"]
  else if value = "Odd" then [.integer 1]
  else if value = "Even" then [.integer 0]
  else if upper value = "NULL" then [.keyword value]
  else [.quoted value]

/-- `$values += $value` keeps what stands at a place already. -/
def groupIds (values : List String) : List ℕ :=
  values.foldl (fun ids value ↦ ids ++ (web.monitorIds value).drop ids.length) []

def sqlValues : List (List Piece) :=
  if term.attr = "Group" then
    (groupIds web (values term.val)).map (fun id ↦ [.integer (id : ℤ)])
  else (values term.val).map (sqlValue web term)

/-- `true` is the first operator of the switch, and prints as a number. -/
def sqlOperator : List Piece :=
  if term.attr = "Group" then [.code " IN "]
  else if term.attr = "AlarmedZoneId" then [.code " EXISTS "]
  else if silentAttr term.attr then []
  else
    match term.op with
    | .yes => [.code " ", .listed "1", .code " "]
    | .text op =>
      if op ∈ ["=", "!=", ">=", ">", "<", "<=", "LIKE", "NOT LIKE"] then
        [.code " ", .listed op, .code " "]
      else if op = "=~" then [.code " regexp "]
      else if op = "!~" then [.code " not regexp "]
      else if op = "=[]" ∨ op = "IN" then [.code " IN "]
      else if op = "![]" ∨ op = "NOT IN" then [.code " NOT IN "]
      else if op = "EXISTS" then [.code " EXISTS "]
      else if op = "IS" then
        if term.val.looseEq "Odd" ∨ term.val.looseEq "Even" then [.code " % 2 = "]
        else if upper term.val.print = "NULL" then [.code " IS "]
        else [.code " = "]
      else if op = "IS NOT" then
        if term.val.looseEq "Odd" ∨ term.val.looseEq "Even" then [.code " % 2 != "]
        else if upper term.val.print = "NULL" then [.code " IS NOT "]
        else [.code " != "]
      else []
    | _ => []

/-- The operators that take a list. -/
def isListOperator (operator : List Piece) : Bool :=
  operator = [.code " IN "] || operator = [.code " NOT IN "]

def sqlAttr : List Piece :=
  if term.attr = "AlarmedZoneId" then [.code "/* AlarmedZoneId */ "]
  else if silentAttr term.attr then [.code "TRUE /*", .name term.attr, .code "*/"]
  else if term.attr = "MonitorName" then [.code "M.Name"]
  else if term.attr = "Group" ∨ term.attr = "Monitor" then [.code "E.MonitorId"]
  else if term.attr = "ServerId" ∨ term.attr = "MonitorServerId" then [.code "M.ServerId"]
  else if term.attr = "StorageServerId" then [.code "S.ServerId"]
  else if term.attr = "FilterServerId" then
    [.code "/* ZM_SERVER_ID:*/", .integer (web.serverId.getD 0)]
  else if term.attr = "CurrentDateTime" then [.code "NOW()"]
  else if term.attr = "CurrentDate" then [.code "to_days(NOW())"]
  else if term.attr = "CurrentTime" then [.code "extract(hour_second FROM NOW())"]
  else if term.attr = "CurrentWeekday" then [.code "weekday(NOW())"]
  else if term.attr = "DateTime" ∨ term.attr = "StartDateTime" then [.code "E.StartDateTime"]
  else if term.attr = "Date" ∨ term.attr = "StartDate" then [.code "to_days(E.StartDateTime)"]
  else if term.attr = "Time" ∨ term.attr = "StartTime" then
    [.code "extract(hour_second FROM E.StartDateTime)"]
  else if term.attr = "Weekday" ∨ term.attr = "StartWeekday" then
    [.code "weekday(E.StartDateTime)"]
  else if term.attr ∈ ["FrameId", "Type", "TimeStamp", "Delta", "Score"] then [.name term.attr]
  else if term.attr = "FramesEventId" then [.code "F.EventId"]
  else if term.attr = "EndDateTime" then [.code "E.EndDateTime"]
  else if term.attr = "EndDate" then [.code "to_days(E.EndDateTime)"]
  else if term.attr = "EndTime" then [.code "extract(hour_second FROM E.EndDateTime)"]
  else if term.attr = "EndWeekday" then [.code "weekday(E.EndDateTime)"]
  else if term.attr = "Tags" then [.code "T.Id"]
  else [.name term.tablename, .code ".", .name term.attr]

def dateColumn (attr : String) : Option String :=
  if attr = "Date" ∨ attr = "StartDate" then some "E.StartDateTime"
  else if attr = "EndDate" then some "E.EndDateTime"
  else none

/-- The day that a date starts with, as `/^(\d{4})-(\d{2})-(\d{2})/` reads it. -/
def dayOf (date : String) : Option String :=
  let day := date.toList.take 10
  if day.length = 10 ∧ day[4]? = some '-' ∧ day[7]? = some '-' ∧
      (day.filter (fun c ↦ c ≠ '-')).length = 8 ∧
      (day.filter (fun c ↦ c ≠ '-')).all Char.isDigit then
    some (String.ofList day)
  else none

/-- The start of a day and that of the next; a value that is no date is both. -/
def dateBounds : List Piece → List Piece × List Piece
  | [.keyword keyword] =>
    if keyword = "CURDATE()" ∨ keyword = "NOW()" then
      ([.keyword keyword], [.keyword keyword, .code " + INTERVAL 1 DAY"])
    else ([.keyword keyword], [.keyword keyword])
  | [.date date] =>
    match dayOf date with
    | some day => ([.date (day ++ " 00:00:00")], [.date (web.nextDay day)])
    | none => ([.date date], [.date date])
  | value => (value, value)

def within (column : String) (value : List Piece) : List Piece :=
  [.code (column ++ " >= ")] ++ (dateBounds web value).1 ++ [.code (" AND " ++ column ++ " < ")] ++
    (dateBounds web value).2

def outside (column : String) (value : List Piece) : List Piece :=
  [.code ("(" ++ column ++ " < ")] ++ (dateBounds web value).1 ++
    [.code (" OR " ++ column ++ " >= ")] ++ (dateBounds web value).2 ++ [.code ")"]

def joined (separator : String) (parts : List (List Piece)) : List Piece :=
  (parts.intersperse [.code separator]).flatten

def isNull (values : List (List Piece)) : Bool :=
  values.length = 1 && upper (String.ofList (render web (values.headD []))) = "NULL"

/-- The operators are compared with `===`, but for the switch at the end. -/
def dateRangeSql (column : String) (op : Scalar) (values : List (List Piece)) : List Piece :=
  let value := values.headD []
  if isNull web values ∧ (op = .text "IS" ∨ op = .text "=") then [.code (column ++ " IS NULL")]
  else if isNull web values ∧ (op = .text "IS NOT" ∨ op = .text "!=") then
    [.code (column ++ " IS NOT NULL")]
  else if op = .text "IN" ∨ op = .text "=[]" then
    [.code "("] ++
      joined " OR " (values.map (fun v ↦ [.code "("] ++ within web column v ++ [.code ")"])) ++
      [.code ")"]
  else if op = .text "NOT IN" ∨ op = .text "![]" then
    [.code "("] ++ joined " AND " (values.map (outside web column)) ++ [.code ")"]
  else if op.looseEq "=" then within web column value
  else if op = .text "!=" then outside web column value
  else if op = .text ">" then [.code (column ++ " >= ")] ++ (dateBounds web value).2
  else if op = .text ">=" then [.code (column ++ " >= ")] ++ (dateBounds web value).1
  else if op = .text "<" then [.code (column ++ " < ")] ++ (dateBounds web value).1
  else if op = .text "<=" then [.code (column ++ " < ")] ++ (dateBounds web value).2
  else if op = .text "IS" then within web column value
  else if op = .text "IS NOT" then outside web column value
  else [.code ("to_days(" ++ column ++ ") "), .listed op.print, .code " "] ++ value

def effectiveEndSql : String :=
  "(CASE\n    WHEN E.EndDateTime IS NOT NULL THEN E.EndDateTime\n" ++
  "    WHEN E.Length > 0 THEN DATE_ADD(E.StartDateTime, INTERVAL FLOOR(E.Length) SECOND)\n" ++
  "    ELSE E.StartDateTime END)"

/-- An event that was still running when the instant came. -/
def stillRunning (operator value : List Piece) : List Piece :=
  [.code "(E.StartDateTime >= DATE_SUB("] ++ value ++
    [.code ", INTERVAL 1 DAY) AND (E.EndDateTime IS NULL OR E.EndDateTime"] ++ operator ++ value ++
    [.code (") AND " ++ effectiveEndSql)] ++ operator ++ value ++ [.code ")"]

def lowerBound : Bool :=
  term.attr = "DateTime" && (term.op.looseEq ">=" || term.op.looseEq ">")

def tagged (negated : Bool) : List Piece :=
  [.code ((if negated then "NOT " else "") ++
    "EXISTS (SELECT NULL FROM Events_Tags AS ET WHERE ET.EventId = E.Id)")]

/-- The left side of a comparison. -/
def leftSql : List Piece :=
  sqlAttr web term ++
    if Php.isEmpty term.collate.toList then [] else [.code " COLLATE ", .name term.collate]

/-- The special tags are known by the text of the quoted value. -/
def isTag (values : List (List Piece)) (literal : String) : Bool :=
  term.attr = "Tags" && render web (values.headD []) = literal.toList

def comparisonSql (operator : List Piece) (values : List (List Piece)) : List Piece :=
  let negated : Bool := term.op = .text "!=" || term.op = .text "IS NOT"
  if values.length > 1 ∧ isListOperator operator = false then
    [.code "("] ++
      joined " OR " (values.map (fun value ↦ leftSql web term ++ operator ++ value)) ++ [.code ")"]
  else if isTag web term values "'0'" then tagged (!negated)
  else if isTag web term values "'-1'" then tagged negated
  else if isListOperator operator then
    leftSql web term ++ operator ++
      if values = [] then [.code "(SELECT NULL WHERE 1!=1)"]
      else [.code "("] ++ joined "," values ++ [.code ")"]
  else leftSql web term ++ operator ++ values.headD []

def conditionSql : List Piece :=
  match dateColumn term.attr with
  | some column => dateRangeSql web column term.op (sqlValues web term)
  | none =>
    if lowerBound term ∧ sqlValues web term ≠ [] then
      if (sqlValues web term).length > 1 then
        [.code "("] ++
          joined " OR " ((sqlValues web term).map (stillRunning (sqlOperator term))) ++ [.code ")"]
      else stillRunning (sqlOperator term) ((sqlValues web term).headD [])
    else comparisonSql web term (sqlOperator term) (sqlValues web term)

/-- A run of brackets; a negative count ends the request. -/
def brackets (bracket : Char) : Option String → Option (List Piece)
  | none => some []
  | some count =>
    (web.repeatCount count).map (fun n ↦
      [.code " ", .code (String.ofList (List.replicate n bracket))])

/-- The conjunction before a term, where it is set. -/
def conjunction : Option String → List Piece
  | none => []
  | some cnj => [.code " ", .listed cnj]

def sqlWith (cnj : Option String) : Option (List Piece) :=
  if Php.isEmpty term.attr.toList then some []
  else do
    let opening ← brackets web '(' term.obr
    let closing ← brackets web ')' term.cbr
    return conjunction cnj ++ opening ++ [.code " "] ++ conditionSql web term ++ closing ++
      [.code "\n"]

def sql : Option (List Piece) := sqlWith web term (some term.cnj)

/-- The SQL of a term of a query. -/
def termSql (term : Term) : Option (List Piece) := sql web (construct web term)

/-- `is_integer` or `ctype_digit`. -/
def Scalar.digits : Scalar → Bool
  | .text s => s ≠ "" && s.toList.all Char.isDigit
  | .integer _ => true
  | .yes => false
  | .no => false

def Scalar.truthy : Scalar → Bool
  | .text s => !Php.isEmpty s.toList
  | .integer n => n ≠ 0
  | .yes => true
  | .no => false

/-- Whether a term has a value that its attribute can be compared with. -/
def valid (term : FilterTerm) : Bool :=
  if term.attr = "AlarmFrames" then term.val.digits
  else if term.attr = "CurrentWeekday" then term.val ≠ .text ""
  else if term.attr ∈ ["CurrentDate", "CurrentTime", "CurrentDateTime", "EndDate", "StartDate",
      "EndDateTime", "StartDateTime"] then term.val.truthy
  else if term.attr ∈ ["Id", "Archived", "Tags", "Monitor", "MonitorId", "ServerId",
      "FilterServerId", "Group", "Notes"] then
    term.val ≠ .text "" && term.val ≠ .text "[]"
  else true

/-- The conjunction of a term in its place: the first one has its own taken off, another one
gets one where it has none. -/
def conjunctionIn (sql : List Piece) (cnj : String) : Option String :=
  if Php.isEmpty (render web sql) then if cnj = "" then some "" else none
  else some (if cnj = "" then "and" else cnj)

def addTerm (sql : List Piece) (term : FilterTerm) : Option (List Piece) :=
  if valid term then
    (sqlWith web term (conjunctionIn web sql term.cnj)).map (fun pieces ↦ sql ++ pieces)
  else some sql

/-- The SQL of a filter's terms; `none` where a count of brackets raises an error. -/
def filterSql (terms : List Term) : Option (List Piece) :=
  (terms.map (construct web)).foldlM (addTerm web) []

/-- A term that adds to the SQL. -/
def emitted (term : FilterTerm) : Bool := valid term && !Php.isEmpty term.attr.toList

/-- The SQL of a term without its conjunction. -/
def bodySql (term : FilterTerm) : Option (List Piece) := sqlWith web term none

/-- A conjunction stands between any two bodies, and none before the first. -/
inductive Conjoined : List (List Piece) → List Piece → Prop
  | nil : Conjoined [] []
  | first (body : List Piece) {before : List Piece}
      (hbefore : before = [] ∨ before = [.code " ", .listed ""]) :
      Conjoined [body] (before ++ body)
  | next {bodies : List (List Piece)} {pieces : List Piece} (h : Conjoined bodies pieces)
      (hne : bodies ≠ []) {cnj : String} (hcnj : cnj ∈ validConjunctionTypes) (body : List Piece) :
      Conjoined (bodies ++ [body]) (pieces ++ ([.code " ", .listed cnj] ++ body))

variable {web term} {terms : List FilterTerm} {pieces sql body : List Piece}

theorem sqlWith_eq (hattr : Php.isEmpty term.attr.toList = false) (cnj : Option String) :
    sqlWith web term cnj = (bodySql web term).map (fun body ↦ conjunction cnj ++ body) := by
  rw [bodySql, sqlWith, sqlWith, if_neg (by simp [hattr]), if_neg (by simp [hattr])]
  cases brackets web '(' term.obr with
  | none => rfl
  | some opening =>
    cases brackets web ')' term.cbr with
    | none => rfl
    | some closing => simp [conjunction]

theorem sqlWith_of_empty (hattr : Php.isEmpty term.attr.toList) (cnj : Option String) :
    sqlWith web term cnj = some [] := by
  rw [sqlWith, if_pos hattr]

/-- A term adds its body behind a conjunction, or nothing. -/
theorem addTerm_eq :
    addTerm web sql term =
      if emitted term then
        (bodySql web term).map (fun body ↦ sql ++ (conjunction (conjunctionIn web sql term.cnj) ++ body))
      else some sql := by
  rw [addTerm, emitted]
  cases hattr : Php.isEmpty term.attr.toList with
  | true => simp [sqlWith_of_empty hattr]
  | false =>
    rw [sqlWith_eq hattr, Option.map_map]
    simp [Function.comp_def]

/-- Every body starts with a blank. -/
theorem bodySql_head (hattr : Php.isEmpty term.attr.toList = false)
    (h : bodySql web term = some body) : body.head? = some (.code " ") := by
  rw [bodySql, sqlWith, if_neg (by simp [hattr])] at h
  obtain ⟨opening, hopening, h⟩ := Option.bind_eq_some_iff.mp h
  obtain ⟨closing, -, h⟩ := Option.bind_eq_some_iff.mp h
  rw [Option.pure_def, Option.some.injEq] at h
  subst h
  cases hobr : term.obr with
  | none =>
    obtain rfl : [] = opening := by simpa [hobr, brackets] using hopening
    rfl
  | some count =>
    rw [hobr] at hopening
    obtain ⟨n, -, rfl⟩ := Option.map_eq_some_iff.mp hopening
    rfl

end ZoneMinder.WebFilter
