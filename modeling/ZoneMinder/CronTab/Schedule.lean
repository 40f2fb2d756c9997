import ZoneMinder.Php

namespace ZoneMinder.CronTab

open Php

/-- minute, hour, day of month, month, day of week -/
def ranges : List (ℤ × ℤ) := [(0, 59), (0, 23), (1, 31), (1, 12), (0, 7)]

def rangeIsValid (lo hi : ℤ) (item : Text) : Bool :=
  if item = ['*'] then true
  else if '-' ∈ item then
    match item.splitOn '-' with
    | [first, last] =>
      allDigits first && allDigits last &&
        !(intval first < lo || hi < intval last || intval last < intval first)
    | _ => false
  else allDigits item && !(intval item < lo || hi < intval item)

/-- A step may follow either a range or a star. -/
def itemIsValid (lo hi : ℤ) (item : Text) : Bool :=
  if item = [] then false
  else if '/' ∈ item then
    match item.splitOn '/' with
    | [item, step] => allDigits step && !(intval step < 1) && rangeIsValid lo hi item
    | _ => false
  else rangeIsValid lo hi item

def scheduleFields (spec : Text) : List Text := Lib.pieces space (trim spec)

def cronScheduleIsValid (spec : Text) : Bool :=
  spec.all (fun c ↦ c ∉ ['\r', '\n', '%']) &&
    (scheduleFields spec).length = 5 &&
      ((scheduleFields spec).zip ranges).all fun (field, lo, hi) ↦
        (field.splitOn ',').all (itemIsValid lo hi)

/-- The escaped pairs go first, so that no backslash of theirs hides a percent sign. -/
def cronCommandIsValid (command : Text) : Bool :=
  let command := trim command
  command ≠ [] && command.all (fun c ↦ c ∉ ['\r', '\n']) &&
    '%' ∉ removePair '\\' '%' (removePair '\\' '\\' command)

/-- The program a command invokes: its first word, with any surrounding quotes removed. -/
def commandProgram (command : Text) : Option Text :=
  match trim command with
  | [] => none
  | c :: cs =>
    let program :=
      if c = '"' ∨ c = '\x27' then if c ∈ cs then cs.takeWhile (· ≠ c) else []
      else (c :: cs).takeWhile (fun d ↦ !space d)
    if program = [] then none else some program

def commandAllowList (setting : Text) : List Text :=
  ((setting.splitOn ',').map trim).filter (· ≠ [])

/-- `ZM_COMMAND_CHAINING` -/
def commandChaining : List Text := [[';'], ['|'], ['&'], ['\x60'], ['$', '(']]

def commandIsAllowed (command allowed : Text) : Bool :=
  let list := commandAllowList allowed
  list = [] ||
    (commandChaining.all (fun chain ↦ ¬chain <:+: command) &&
      (commandProgram command).any list.contains)

structure CronJob where
  id : ℤ
  enabled : Bool
  schedule : Text
  command : Text

namespace CronJob

/-- The command with the name of the row that it came from. -/
def line (job : CronJob) : Text :=
  trim job.command ++ " # ZoneMinder job ".toList ++ decimal job.id

/-- `allowed` is ZM_ALLOWED_COMMANDS. -/
def cronLine (allowed : Text) (job : CronJob) : Option Text :=
  if !job.enabled then none
  else if !cronScheduleIsValid job.schedule then none
  else if !cronCommandIsValid job.command then none
  else if !commandIsAllowed job.command allowed then none
  else some (trim job.schedule ++ ' ' :: job.line)

end CronJob

structure MonitorAction where
  id : ℤ
  triggerOn : String
  enabled : Bool
  schedule : Text
  actionType : String
  targetMonitorId : ℤ
  audioFile : Option ℤ

/-- The directory of the programs, fixed when ZoneMinder is built. -/
structure PathBin where
  path : Text
  absolute : path.head? = some '/'
  plain : ∀ c ∈ path, c ≠ '\n' ∧ c ≠ '%'

namespace MonitorAction

def commandFor (actionType : String) : Option Text :=
  match actionType with
  | "LightOn" => some "lightOn".toList
  | "LightOff" => some "lightOff".toList
  | "IndicatorLightOn" => some "indicatorLightOn".toList
  | "IndicatorLightOff" => some "indicatorLightOff".toList
  | "AudioPlay" => some "audioPlay".toList
  | "AudioStop" => some "audioStop".toList
  | _ => none

def fileOption (action : MonitorAction) : Text :=
  match action.audioFile with
  | some file => if action.actionType = "AudioPlay" then " --file=".toList ++ decimal file else []
  | none => []

def line (bin : PathBin) (action : MonitorAction) (command : Text) : Text :=
  bin.path ++ "/zmcontrol.pl --id ".toList ++ decimal action.targetMonitorId ++
    action.fileOption ++ " --command=".toList ++ command ++ " # ZoneMinder action ".toList ++
    decimal action.id

def cronLine (bin : PathBin) (action : MonitorAction) : Option Text :=
  if action.triggerOn ≠ "Schedule" then none
  else if !action.enabled then none
  else if !cronScheduleIsValid action.schedule then none
  else
    match commandFor action.actionType with
    | none => none
    | some command =>
      if action.targetMonitorId = 0 then none
      else some (trim action.schedule ++ ' ' :: action.line bin command)

end MonitorAction

/-- What separates the fields of a crontab line. -/
def cronSpace (c : Char) : Bool := c = ' ' || c = '\t'

/-- The first fields of a line, and what stands after them. -/
def cronFields : ℕ → Text → Option (List Text × Text)
  | 0, line => some ([], line.dropWhile cronSpace)
  | n + 1, line =>
    let line := line.dropWhile cronSpace
    let field := line.takeWhile (fun c ↦ !cronSpace c)
    if field = [] then none
    else
      (cronFields n (line.dropWhile (fun c ↦ !cronSpace c))).map
        fun (fields, rest) ↦ (field :: fields, rest)

/-- The command up to its first percent sign that no backslash escapes; the rest is its input. -/
def splitPercent : Bool → Text → Text × Option Text
  | _, [] => ([], none)
  | escaped, c :: cs =>
    if c = '%' ∧ escaped = false then ([], some cs)
    else
      let (command, input) := splitPercent (!escaped && c = '\\') cs
      (c :: command, input)

structure CronEntry where
  fields : List Text
  command : Text
  input : Option Text
  deriving DecidableEq

def cronParse (line : Text) : Option CronEntry :=
  (cronFields 5 line).map fun (fields, rest) ↦
    let (command, input) := splitPercent false rest
    ⟨fields, command, input⟩

/-- The line is one entry, with the fields that were validated and the command that was meant. -/
structure RunsAsValidated (schedule command line : Text) : Prop where
  one : '\n' ∉ line
  parse : cronParse line = some ⟨scheduleFields schedule, command, none⟩

end ZoneMinder.CronTab
