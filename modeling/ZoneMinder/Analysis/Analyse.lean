import Mathlib.Data.Rat.Floor

namespace ZoneMinder.Analysis

inductive State
  | unknown | idle | prealarm | alarm | alert
  deriving DecidableEq

inductive TriggerState
  | cancel | on | off
  deriving DecidableEq

inductive AnalysingOption
  | none | always
  deriving DecidableEq

inductive RecordingOption
  | none | onMotion | always
  deriving DecidableEq

inductive EventCloseMode
  | unknown | system | time | duration | idle | alarm
  deriving DecidableEq

/-- EventAction::TriggerOn, without MANUAL, which is never run from here. -/
inductive TriggerOn
  | eventStart | eventEnd | alarm | alarmEnd
  deriving DecidableEq

def maxPreAlarmFrames : ℤ := 16

/-- The columns of a row of Monitors that Analyse depends on; lengths are in seconds. -/
structure Settings where
  decodes : Bool := false
  preEventCount : ℤ := 0
  postEventCount : ℤ := 0
  alarmFrameCount : ℤ := 0
  sectionLength : ℤ := 0
  minSectionLength : ℤ := 0
  eventCloseMode : EventCloseMode := .idle
  audioDetection : Bool := false
  audioAlarmScore : ℤ := 0

/-- A Monitor. Of its event only that there is one is kept, and of RunActions every call
made so far. `preAlarmCount` is Event::pre_alarm_count. -/
structure Monitor where
  settings : Settings := {}
  state : State := .idle
  lastSignal : Bool := false
  alarmActionsFired : Bool := false
  preAlarmCount : ℤ := 0
  alertToAlarmFrameCount : ℤ := 0
  analysisImageCount : ℤ := 0
  lastAlarmCount : ℤ := 0
  event : Bool := false
  actions : List TriggerOn := []

/-- What openEvent finds as the start of the event: no packet it can lock, the packet being
analysed, or one so many seconds before it. -/
inductive EventStart
  | locked
  | here
  | earlier (seconds : ℚ)

/-- What one call of Analyse reads besides the Monitor: the shared memory, the packet, the
detectors and the open event. `motion` is the score of DetectMotion, none when the packet
has no image for it or is skipped; `link` is the score of the linked monitors, if any. -/
structure Frame where
  signal : Bool := true
  triggerState : TriggerState := .cancel
  triggerScore : ℤ := 0
  onvifAlarmed : Bool := false
  amcrestAlarmed : Bool := false
  audioAlarm : Bool := false
  link : Option ℤ := none
  linkedWake : Bool := false
  isVideo : Bool := true
  decoded : Bool := true
  analysing : AnalysingOption := .always
  ready : Bool := true
  motion : Option ℕ := none
  recording : RecordingOption := .none
  timestamp : ℤ := 0
  eventDuration : ℚ := 0
  eventAlarmFrames : ℤ := 0
  eventStart : EventStart := .here

def runActions (trigger : TriggerOn) (m : Monitor) : Monitor :=
  { m with actions := m.actions ++ [trigger] }

def setState (state : State) (m : Monitor) : Monitor := { m with state := state }

def endAlarmActions (m : Monitor) : Monitor :=
  if m.alarmActionsFired then runActions .alarmEnd { m with alarmActionsFired := false } else m

def closeEvent (m : Monitor) : Monitor :=
  if m.event then runActions .eventEnd { m with event := false } else m

def openEvent (start : EventStart) (m : Monitor) : Monitor :=
  match start with
  | .locked => m
  | .here => runActions .eventStart { m with event := true }
  | .earlier duration =>
    let m := { m with event := true }
    let m :=
      if m.settings.minSectionLength ≤ duration then
        { m with settings := { m.settings with minSectionLength := ⌈duration⌉ + 1 } }
      else m
    runActions .eventStart m

/-- The part of the score that does not come from the picture. -/
def triggerScores (f : Frame) (m : Monitor) : ℤ :=
  (if f.onvifAlarmed then 9 else 0) + (if f.amcrestAlarmed then 9 else 0) +
  (if m.settings.audioDetection ∧ f.audioAlarm then m.settings.audioAlarmScore else 0) +
  (if f.triggerState = .on then f.triggerScore else 0)

def linkScore (f : Frame) : ℤ :=
  match f.link with
  | none => 0
  | some score => max 0 (if f.linkedWake ∧ score ≤ 0 then 1 else score)

/-- motion_score, which stays at -1 when no motion detection is done. -/
def motionScore (f : Frame) : ℤ :=
  match f.motion with
  | some score => if f.isVideo ∧ f.analysing ≠ .none ∧ f.ready then score else -1
  | none => -1

def frameScore (f : Frame) (m : Monitor) : ℤ :=
  let score := triggerScores f m + linkScore f
  min 255 (if 0 ≤ motionScore f then score + motionScore f else score)

/-- The state machine for a frame with a score. -/
def scored (m : Monitor) : Monitor :=
  let m :=
    if m.state = .idle ∨ m.state = .prealarm then
      if m.settings.preEventCount = 0 ∨ m.settings.alarmFrameCount - 1 ≤ m.preAlarmCount then
        runActions .alarm { setState .alarm m with alarmActionsFired := true }
      else if m.state ≠ .prealarm then
        { setState .prealarm m with preAlarmCount := m.preAlarmCount + 1 }
      else { m with preAlarmCount := m.preAlarmCount + 1 }
    else if m.state = .alert then
      let m := { m with alertToAlarmFrameCount := m.alertToAlarmFrameCount - 1 }
      if m.alertToAlarmFrameCount = 0 then setState .alarm m else m
    else m
  if m.state = .alarm then { m with lastAlarmCount := m.analysisImageCount } else m

def postEventOver (m : Monitor) : Bool :=
  m.settings.postEventCount < m.analysisImageCount - m.lastAlarmCount

/-- The state machine for a frame without a score. -/
def unscored (m : Monitor) : Monitor :=
  let m := { m with alertToAlarmFrameCount := m.settings.alarmFrameCount }
  let m :=
    if m.state = .alarm then setState .alert m
    else if m.state = .alert then
      if postEventOver m then endAlarmActions (setState .idle m) else m
    else if m.state = .prealarm then setState .idle m
    else m
  { m with preAlarmCount := 0 }

/-- Whether the open event is to be closed. -/
def closesEvent (f : Frame) (m : Monitor) : Bool :=
  let sectionLength : ℚ := m.settings.sectionLength
  m.settings.minSectionLength ≤ f.eventDuration &&
  match f.recording with
  | .always =>
    match m.settings.eventCloseMode with
    | .alarm =>
      if m.state = .alarm then
        f.eventAlarmFrames < m.settings.alarmFrameCount || sectionLength < f.eventDuration
      else if m.state = .idle then
        (m.settings.alarmFrameCount < f.eventAlarmFrames && postEventOver m) ||
          sectionLength < f.eventDuration
      else false
    | .time => f.timestamp % m.settings.sectionLength = 0
    | .idle => m.state = .idle && sectionLength ≤ f.eventDuration
    | .duration => sectionLength ≤ f.eventDuration
    | _ => false
  | .onMotion => sectionLength < f.eventDuration || (m.state = .idle && postEventOver m)
  | .none => false

def manageEvent (f : Frame) (m : Monitor) : Monitor :=
  let m := if m.event && closesEvent f m then closeEvent m else m
  if m.event = false ∧
      (f.recording = .always ∨ f.recording = .onMotion ∧ m.state = .alarm) then
    openEvent f.eventStart m
  else m

def countImage (f : Frame) (m : Monitor) : Monitor :=
  if f.isVideo then { m with analysisImageCount := m.analysisImageCount + 1 } else m

def analyse (f : Frame) (m : Monitor) : Monitor :=
  let signalChange := f.signal ≠ m.lastSignal
  let m := { m with lastSignal := f.signal }
  if f.triggerState = .off then countImage f (endAlarmActions (setState .idle (closeEvent m)))
  else
    let m :=
      if signalChange then
        endAlarmActions (setState .idle (if f.signal then m else closeEvent m))
      else m
    if f.signal then
      -- the packet is retried once it is decoded
      if f.isVideo ∧ m.settings.decodes ∧ f.decoded = false then m
      else
        let score := frameScore f m
        let m :=
          if score ≠ 0 then scored m
          else if 0 ≤ motionScore f ∨ f.analysing ≠ .always then unscored m
          else m
        countImage f (manageEvent f m)
    else countImage f m

/-- Load's treatment of a row. `configured` is the configuration's event_close_mode. -/
def loadSettings (row : Settings) (configured : String) : Settings :=
  { row with
    alarmFrameCount := max 1 (min maxPreAlarmFrames row.alarmFrameCount)
    sectionLength := max row.sectionLength row.minSectionLength
    eventCloseMode :=
      match row.eventCloseMode with
      | .system =>
        if configured = "time" then .time
        else if configured = "alarm" then .alarm
        else if configured = "idle" then .idle
        else if configured = "duration" then .duration
        else .idle
      | .unknown => .idle
      | mode => mode }

def load (row : Settings) (configured : String) (m : Monitor) : Monitor :=
  { m with
    settings := loadSettings row configured
    lastAlarmCount := 0
    state := .idle
    lastSignal := true }

/-- `row` is what the database returns, none when the query fails. -/
def reload (row : Option Settings) (configured : String) (m : Monitor) : Monitor :=
  match row with
  | none => closeEvent m
  | some row => load row configured (closeEvent m)

inductive Op
  | analyse (f : Frame)
  | load (row : Settings) (configured : String)
  | reload (row : Option Settings) (configured : String)

def step (m : Monitor) : Op → Monitor
  | .analyse f => analyse f m
  | .load row configured => load row configured m
  | .reload row configured => reload row configured m

def run (ops : List Op) : Monitor := ops.foldl step {}

end ZoneMinder.Analysis
