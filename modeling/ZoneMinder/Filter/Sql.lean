import ZoneMinder.Perl
import Mathlib.Data.List.DropRight

namespace ZoneMinder.Filter

open Perl

def isQuote (c : Char) : Bool := c = '"' || c = '\''

/-- `s/^["']+?(.+)["']+?$/$1/`: one quote is taken off either end of a line, whatever is left
between them and whether or not a newline follows. -/
def stripQuotes : List Char → List Char
  | [] => []
  | q :: rest =>
    let line := if rest.getLast? = some '\n' then rest.dropLast else rest
    let newline := if rest.getLast? = some '\n' then ['\n'] else []
    if isQuote q ∧ line.getLast?.any isQuote ∧ line.dropLast ≠ [] ∧ '\n' ∉ line.dropLast then
      line.dropLast ++ newline
    else q :: rest

/-- The fields of a split at `/["'\s]*?,["'\s]*?/`, which takes what it can before the comma and
nothing after it. -/
def splitFields (space : Char → Bool) (text : List Char) : List (List Char) :=
  let fields := text.splitOn ','
  fields.dropLast.map (fun field ↦ field.rdropWhile (fun c ↦ isQuote c || space c)) ++
    fields.getLast?.toList

/-- A part of a statement: fixed text, a value of the configuration, text that comes from the
stored query as it is, a text that is quoted by the database, a date between quotes. -/
inductive Piece
  | code (text : String)
  | config (text : String)
  | user (text : String)
  | quoted (text : String)
  | date (text : String)
  deriving DecidableEq

/-- What the script has from elsewhere: the database handle, date parsing and the time zone, and
`ZM_SERVER_ID`. -/
structure Script extends Perl.Runtime where
  quote : String → String
  int : String → String
  dateTimeToSQL : String → Option String
  nextDay : String → String
  serverId : Option String

variable (script : Script)

def Piece.render : Piece → String
  | code text => text
  | config text => text
  | user text => text
  | quoted text => script.quote text
  | date text => "'" ++ text ++ "'"

def render (pieces : List Piece) : String := String.join (pieces.map (Piece.render script))

theorem render_append (pieces pieces' : List Piece) :
    render script (pieces ++ pieces') = render script pieces ++ render script pieces' := by
  simp [render, String.join_append]

def validOps : List String :=
  ["=", "!=", ">=", "<=", ">", "<", "LIKE", "NOT LIKE", "=~", "!~", "=[]", "![]", "IN", "NOT IN",
    "EXISTS", "IS", "IS NOT"]

def attrChar (c : Char) : Bool := c.isAlphanum || c = '.'

/-- `'E.'.$attr` and the like may only name columns. -/
def cleanAttr (attr : String) : Bool := attr.toList.all attrChar

def dateColumn (attr : String) : Option String :=
  if attr = "Date" ∨ attr = "StartDate" then some "E.StartDateTime"
  else if attr = "EndDate" then some "E.EndDateTime"
  else none

def lowerBound (attr op : String) : Bool := attr = "DateTime" && (op = ">=" || op = ">")

def isMonitorAttr (attr : String) : Bool := "Monitor".toList.isPrefixOf attr.toList

def isMonitorNameAttr (attr : String) : Bool := "MonitorName".toList.isPrefixOf attr.toList

/-- What `/^Monitor(.+)$/` finds. -/
def monitorColumn (attr : String) : String := String.ofList (attr.toList.drop 7)

def tagsField : String := ", (SELECT GROUP_CONCAT(Name) FROM Tags WHERE Id IN (SELECT TagId FROM " ++
  "Events_Tags WHERE Events_Tags.EventId=E.Id)) As Tags"

def tagsJoin : String :=
  " LEFT JOIN Events_Tags AS ET ON E.Id = ET.EventId LEFT JOIN Tags AS T ON T.Id = ET.TagId"

def monitorField : String := ", M.Name as MonitorName"

def monitorJoin : String := " INNER JOIN Monitors as M on M.Id = E.MonitorId"

def ownServerId : Piece :=
  match script.serverId with
  | some id => .config id
  | none => .code "0"

/-- The left side of a term; `tag` is whether the value is one of the special tags. -/
def attrSql (attr op : String) (tag : Bool) : List Piece :=
  if attr = "AlarmedZoneId" then []
  else if attr = "Tags" then if tag then [] else [.code "T.Id"]
  else if isMonitorAttr attr then
    [.code "M.", if isTrue (monitorColumn attr) then .user (monitorColumn attr) else .code "Id"]
  else if attr = "ServerId" ∨ attr = "MonitorServerId" then [.code "M.ServerId"]
  else if attr = "StorageServerId" then
    [.code "(SELECT Storage.ServerId FROM Storage WHERE Storage.Id=E.StorageId)"]
  else if attr = "FilterServerId" then [ownServerId script, .code " /* ZM_SERVER_ID */"]
  else if attr = "CurrentDateTime" then [.code "NOW()"]
  else if attr = "CurrentTime" then [.code "extract( hour_second from NOW())"]
  else if attr = "CurrentDate" then [.code "to_days(NOW())"]
  else if attr = "CurrentWeekday" then [.code "weekday(NOW())"]
  else if attr = "DateTime" then if lowerBound attr op then [] else [.code "E.StartDateTime"]
  else if attr = "Date" then []
  else if attr = "StartDate" then []
  else if attr = "Time" ∨ attr = "StartTime" then
    [.code "extract( hour_second from E.StartDateTime )"]
  else if attr = "Weekday" ∨ attr = "StartWeekday" then [.code "weekday( E.StartDateTime )"]
  else if attr = "EndDateTime" then [.code "E.EndDateTime"]
  else if attr = "EndDate" then []
  else if attr = "EndTime" then [.code "extract( hour_second from E.EndDateTime )"]
  else if attr = "EndWeekday" then [.code "weekday( E.EndDateTime )"]
  else if attr = "ExistsInFileSystem" then [.code "TRUE /* ExistsInFileSystem */"]
  else if attr = "DiskPercent" then [.code "zmDiskPercent"]
  else if attr = "DiskBlocks" then [.code "zmDiskBlocks"]
  else if attr = "SystemLoad" then [.code "zmSystemLoad"]
  else [.code "E.", .user attr]

/-- The texts that the loop over the values runs through: none where all fields of the split are
empty. -/
def valueTexts (value : String) : List String :=
  let stripped := stripQuotes value.toList
  if stripped = [] then [""]
  else ((splitFields (space script.toRuntime) stripped).rdropWhile List.isEmpty).map String.ofList

def serverAttr (attr : String) : Bool :=
  attr ∈ ["ServerId", "MonitorServerId", "StorageServerId", "FilterServerId"]

def textAttr (attr : String) : Bool := attr ∈ ["Name", "Cause", "Notes", "Tags"]

def dateTimeAttr (attr : String) : Bool :=
  attr ∈ ["DateTime", "StartDateTime", "EndDateTime", "CurrentDateTime"]

def dateAttr (attr : String) : Bool := attr ∈ ["Date", "StartDate", "EndDate", "CurrentDate"]

def timeAttr (attr : String) : Bool := attr ∈ ["Time", "StartTime", "EndTime", "CurrentTime"]

/-- A date that cannot be read refuses the filter. -/
def parsedDate (text : String) : Option String :=
  (script.dateTimeToSQL text).filter isTrue

/-- What one round of the loop puts into `$value`, which held `value`. -/
def valueSql (attr op : String) (value : List Piece) (text : String) : Option (List Piece) :=
  if attr = "AlarmedZoneId" then
    some [.code "(SELECT * FROM Stats WHERE EventId=E.Id AND Score > 0 AND ZoneId=",
      .user (script.int (render script value)), .code ")"]
  else if isMonitorNameAttr attr then some [.quoted text]
  else if serverAttr attr then
    if text = "ZM_SERVER_ID" then
      some [match script.serverId with
        | some id => .quoted id
        | none => .code "NULL"]
    else if isNull text then some [.user text]
    else some [.quoted text]
  else if attr = "StorageId" then
    some [if text ≠ "" then .user (script.int text) else .code "NULL"]
  else if textAttr attr then
    if (op = "LIKE" ∨ op = "NOT LIKE") ∧ '%' ∉ text.toList then some [.quoted ("%" ++ text ++ "%")]
    else some [.quoted text]
  else if dateTimeAttr attr then
    if isNull text then some [.user text]
    else (parsedDate script text).map (fun date ↦ [.date date])
  else if dateAttr attr then
    if isNull text then some [.user text]
    else if text = "CURDATE()" ∨ text = "NOW()" then
      some (if (dateColumn attr).isSome then [.user text]
        else [.code "to_days(", .user text, .code ")"])
    else
      (parsedDate script text).map (fun date ↦
        if (dateColumn attr).isSome then [.quoted date]
        else [.code "to_days( ", .quoted date, .code " )"])
  else if timeAttr attr then
    if isNull text then some [.user text]
    else
      (parsedDate script text).map (fun date ↦
        [.code "extract( hour_second from ", .quoted date, .code " )"])
  else if isNull text then some [.code "NULL"]
  else if plainNumber script.toRuntime text.toList then some [.user text]
  else some [.quoted text]

/-- `$value` and `@value_list` after the loop. -/
def valuesSql (attr op : String) :
    List Piece → List String → Option (List Piece × List (List Piece))
  | value, [] => some (value, [])
  | value, text :: texts => do
    let value ← valueSql script attr op value text
    let (last, values) ← valuesSql attr op value texts
    return (last, value :: values)

/-- The day that a date starts with, as `/^(\d{4})-(\d{2})-(\d{2})/` reads it. -/
def dayOf (date : String) : Option String :=
  let day := date.toList.take 10
  if day.length = 10 ∧ day[4]? = some '-' ∧ day[7]? = some '-' ∧
      (day.filter (fun c ↦ c ≠ '-')).length = 8 ∧
      (day.filter (fun c ↦ c ≠ '-')).all (digit script.toRuntime) then
    some (String.ofList day)
  else none

/-- The start of a day and that of the next; a value that is no date is both. -/
def dateBounds : List Piece → List Piece × List Piece
  | [.user keyword] =>
    if keyword = "CURDATE()" ∨ keyword = "NOW()" then
      ([.user keyword], [.user keyword, .code " + INTERVAL 1 DAY"])
    else ([.user keyword], [.user keyword])
  | [.quoted date] =>
    match dayOf script date with
    | some day => ([.date (day ++ " 00:00:00")], [.date (script.nextDay day)])
    | none => ([.quoted date], [.quoted date])
  | value => (value, value)

def within (column : String) (value : List Piece) : List Piece :=
  [.code (column ++ " >= ")] ++ (dateBounds script value).1 ++ [.code (" AND " ++ column ++ " < ")] ++
    (dateBounds script value).2

def outside (column : String) (value : List Piece) : List Piece :=
  [.code ("(" ++ column ++ " < ")] ++ (dateBounds script value).1 ++
    [.code (" OR " ++ column ++ " >= ")] ++ (dateBounds script value).2 ++ [.code ")"]

def joined (separator : String) (parts : List (List Piece)) : List Piece :=
  (parts.intersperse [.code separator]).flatten

/-- `_dateRangeSQL`; without a value the bounds are empty texts. -/
def dateRangeSql (column op : String) (values : List (List Piece)) : List Piece :=
  let value := values.headD []
  let null := values.length = 1 ∧ isNull (render script value)
  if null ∧ (op = "IS" ∨ op = "=") then [.code (column ++ " IS NULL")]
  else if null ∧ (op = "IS NOT" ∨ op = "!=") then [.code (column ++ " IS NOT NULL")]
  else if op = "IN" ∨ op = "=[]" then
    [.code "("] ++
      joined " OR " (values.map (fun v ↦ [.code "("] ++ within script column v ++ [.code ")"])) ++
      [.code ")"]
  else if op = "NOT IN" ∨ op = "![]" then
    [.code "("] ++ joined " AND " (values.map (outside script column)) ++ [.code ")"]
  else if op = "=" ∨ op = "IS" then within script column value
  else if op = "!=" ∨ op = "IS NOT" then outside script column value
  else if op = ">" then [.code (column ++ " >= ")] ++ (dateBounds script value).2
  else if op = ">=" then [.code (column ++ " >= ")] ++ (dateBounds script value).1
  else if op = "<" then [.code (column ++ " < ")] ++ (dateBounds script value).1
  else if op = "<=" then [.code (column ++ " < ")] ++ (dateBounds script value).2
  else [.code ("to_days(" ++ column ++ ") "), .user op, .code " "] ++ value

def effectiveEndSql : String :=
  "(CASE\n    WHEN E.EndDateTime IS NOT NULL THEN E.EndDateTime\n" ++
  "    WHEN E.Length > 0 THEN DATE_ADD(E.StartDateTime, INTERVAL FLOOR(E.Length) SECOND)\n" ++
  "    ELSE E.StartDateTime END)"

/-- An event that was still running when the instant came. -/
def stillRunning (op : String) (value : List Piece) : List Piece :=
  [.code "(E.StartDateTime >= DATE_SUB("] ++ value ++
    [.code ", INTERVAL 1 DAY) AND (E.EndDateTime IS NULL OR E.EndDateTime ", .user op, .code " "] ++
    value ++ [.code (") AND " ++ effectiveEndSql ++ " "), .user op, .code " "] ++ value ++
    [.code ")"]

def tagged (negated : Bool) : List Piece :=
  [.code ((if negated then "NOT " else "") ++
    "EXISTS (SELECT NULL FROM `Events_Tags` AS ET WHERE ET.EventId = E.Id)")]

/-- The operator and the right side of a term; `val` is the value as it is stored. -/
def operatorSql (attr op val : String) (value : List Piece) (values : List (List Piece)) :
    List Piece :=
  match dateColumn attr with
  | some column => [.code " "] ++ dateRangeSql script column op values
  | none =>
    if lowerBound attr op ∧ values ≠ [] then
      [.code " "] ++
        if values.length > 1 then
          [.code "("] ++ joined " OR " (values.map (stillRunning op)) ++ [.code ")"]
        else (values.map (stillRunning op)).flatten
    else if attr = "Tags" ∧ val = "0" then tagged (!(op = "!=" || op = "IS NOT"))
    else if attr = "Tags" ∧ val = "-1" then tagged (op = "!=" || op = "IS NOT")
    else if op = "=~" then [.code " REGEXP "] ++ value
    else if op = "!~" then [.code " NOT REGEXP "] ++ value
    else if op = "IS" then
      if render script value = "Odd" then [.code " % 2 = 1"]
      else if render script value = "Even" then [.code " % 2 = 0"]
      else if isNull (render script value) then [.code " IS "] ++ value
      else [.code " = "] ++ value
    else if op = "EXISTS" then [.code " EXISTS "] ++ value
    else if op = "IS NOT" then
      if isNull (render script value) then [.code " IS NOT "] ++ value
      else [.code " != "] ++ value
    else if op = "=[]" ∨ op = "IN" then [.code " IN ("] ++ joined "," values ++ [.code ")"]
    else if op = "![]" ∨ op = "NOT IN" then [.code " NOT IN ("] ++ joined "," values ++ [.code ")"]
    else if op = "LIKE" then [.code " LIKE "] ++ value
    else if op = "NOT LIKE" then [.code " NOT LIKE "] ++ value
    else [.code " ", .user op, .code " "] ++ value

/-- What the terms have added so far. -/
structure Clauses where
  sql : List Piece := []
  fields : List Piece := [.code "E.*, unix_timestamp(E.StartDateTime) AS Time"]
  tables : List Piece := [.code "Events AS E"]
  monitorName : Bool := false

def Clauses.joinMonitors (clauses : Clauses) : Clauses :=
  if clauses.monitorName then clauses
  else
    { clauses with
      fields := clauses.fields ++ [.code monitorField]
      tables := clauses.tables ++ [.code monitorJoin]
      monitorName := true }

def Clauses.join (clauses : Clauses) (attr : String) : Clauses :=
  if attr = "Tags" then
    { clauses with
      fields := clauses.fields ++ [.code tagsField]
      tables := clauses.tables ++ [.code tagsJoin] }
  else if isMonitorAttr attr ∨ attr = "ServerId" then clauses.joinMonitors
  else clauses

def Clauses.add (clauses : Clauses) (pieces : List Piece) : Clauses :=
  { clauses with sql := clauses.sql ++ pieces }

/-- What stands before the attribute of a term. -/
def termStart (fields : List (String × Json)) : List Piece :=
  let cnj := (Json.get fields "cnj").text script.toRuntime
  let obr := fields.lookup "obr"
  (if chomp cnj.toList = ['a', 'n', 'd'] ∨ chomp cnj.toList = ['o', 'r'] then
      [.code " ", .user cnj]
    else []) ++
    [.code " "] ++
    match obr with
    | some n => [.user (String.ofList (List.replicate (script.repeatCount n) '(')), .code " "]
    | none => []

def termEnd (fields : List (String × Json)) : List Piece :=
  (match fields.lookup "cbr" with
    | some n => [.code " ", .user (String.ofList (List.replicate (script.repeatCount n) ')'))]
    | none => []) ++ [.code "\n"]

/-- The operator as it is checked; none is an empty text. -/
def termOp (fields : List (String × Json)) : String :=
  (Json.get fields "op").text script.toRuntime

def termAttr (fields : List (String × Json)) : String :=
  (Json.get fields "attr").text script.toRuntime

def termVal (fields : List (String × Json)) : String :=
  (Json.get fields "val").text script.toRuntime

/-- `AlarmedZoneId` has an operator of its own. -/
def effectiveOp (attr op : String) : String := if attr = "AlarmedZoneId" then "EXISTS" else op

/-- The part of a term that is no bracket and no conjunction. -/
def conditionSql (attr op val : String) : Option (List Piece) :=
  if attr = "ExistsInFileSystem" then some []
  else do
    let (value, values) ← valuesSql script attr (effectiveOp attr op) [.user val]
      (valueTexts script val)
    return if isTrue (effectiveOp attr op) then
      operatorSql script attr (effectiveOp attr op) val value values else []

/-- One round of the loop over the terms: a term without an attribute is left halfway, and what
is no object ends the script. -/
def termSql (clauses : Clauses) : Json → Option Clauses
  | .null => some (clauses.add [.code " "])
  | .object fields =>
    let attr := termAttr script fields
    let op := termOp script fields
    let val := termVal script fields
    if (Json.get fields "attr").truthy = false then some (clauses.add (termStart script fields))
    else if cleanAttr attr = false ∨ (op ≠ "" ∧ op ∉ validOps) then none
    else do
      let condition ← conditionSql script attr op val
      let tag := val = "0" ∨ val = "-1"
      return (clauses.join attr).add
        (termStart script fields ++ attrSql script attr op tag ++ condition ++
          termEnd script fields)
  | _ => none

/-- The columns of a filter's row that its statement depends on. -/
structure FilterRow where
  autoArchive : Bool
  autoUnarchive : Bool
  autoVideo : Bool
  autoUpload : Bool
  autoEmail : Bool
  autoMessage : Bool
  autoExecute : Bool
  lockRows : Bool

def autoTerms (filter : FilterRow) : List (List Piece) :=
  [(filter.autoArchive, "E.Archived = 0"), (filter.autoUnarchive, "E.Archived = 1"),
    (filter.autoVideo, "E.Videoed = 0"), (filter.autoUpload, "E.Uploaded = 0"),
    (filter.autoEmail, "E.Emailed = 0"), (filter.autoMessage, "E.Messaged = 0"),
    (filter.autoExecute, "E.Executed = 0")].filterMap (fun (set, term) ↦
      if set then some [.code term] else none)

def selectSql (filter : FilterRow) (clauses : Clauses) : List Piece :=
  [.code " SELECT "] ++ clauses.fields ++ [.code " FROM "] ++ clauses.tables ++
    (if clauses.sql = [] then [] else [.code " WHERE ( "] ++ clauses.sql ++ [.code " )"]) ++
    if autoTerms filter = [] then []
    else [.code " AND ( "] ++ joined " or " (autoTerms filter) ++ [.code " )"]

def lockSql (filter : FilterRow) (skipLocked : Json) : List Piece :=
  if filter.lockRows ∧ skipLocked.truthy then
    [.code (" AND NOT EXISTS (SELECT 1 FROM Events_Lock AS EL WHERE EL.EventId=E.Id " ++
      "AND EL.ExpiresAt>NOW())")]
  else []

def sortColumns : List (String × String) :=
  [("Id", "E.Id"), ("Tag", "T.Name"), ("MonitorName", "M.Name"), ("Name", "E.Name"),
    ("StartDateTime", "E.StartDateTime"), ("StartTime", "E.StartDateTime"),
    ("EndTime", "E.EndDateTime"), ("EndDateTime", "E.EndDateTime"), ("Secs", "E.Length"),
    ("Frames", "E.Frames"), ("AlarmFrames", "E.AlarmFrames"), ("TotScore", "E.TotScore"),
    ("AvgScore", "E.AvgScore"), ("MaxScore", "E.MaxScore"), ("DiskSpace", "E.DiskSpace")]

def orderSql (sortField sortAsc : Json) : List Piece :=
  if sortField.truthy then
    [.code " ORDER BY "] ++
      (match sortColumns.lookup (sortField.text script.toRuntime) with
        | some column => [.code column]
        | none => [.code "E.", .user (sortField.text script.toRuntime)]) ++
      [.code (if sortAsc.truthy then " ASC" else " DESC")]
  else []

def limitSql (limit : Json) : List Piece :=
  if limit.truthy then [.code " LIMIT 0,", .user (limit.text script.toRuntime)] else []

/-- `none` where the filter is refused or the script ends. Sorting by the monitor's name makes the
statement anew where the monitors were not joined, without the part on locks. -/
def filterSql (filter : FilterRow) : Json → Option (List Piece)
  | .object expr => do
    let terms := Json.get expr "terms"
    let clauses ←
      if terms.truthy then
        match terms with
        | .array elements => elements.foldlM (termSql script) {}
        | _ => none
      else some {}
    let sortField := Json.get expr "sort_field"
    let selected :=
      if sortField.text script.toRuntime = "MonitorName" ∧ clauses.monitorName = false then
        selectSql filter clauses.joinMonitors
      else selectSql filter clauses ++ lockSql filter (Json.get expr "skip_locked")
    return selected ++ orderSql script sortField (Json.get expr "sort_asc") ++
      limitSql script (Json.get expr "limit")
  | _ => none

end ZoneMinder.Filter
