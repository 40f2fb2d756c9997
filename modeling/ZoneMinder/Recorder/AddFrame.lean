import ZoneMinder.Analysis.Analyse
import ZoneMinder.Zone.CheckAlarms
import ZoneMinder.Lib.Run

namespace ZoneMinder.Recorder

open Analysis (State)
open Zone (ZoneStats)

/-- What stays as it is while an event is recorded. `videoStore` is whether one could be opened,
`encoding` whether it encodes; the system clock counts nanoseconds. -/
structure Settings where
  bulkFrameInterval : ℤ := 100
  recordEventStats : Bool := true
  saveJpegs : ℕ := 0
  videoStore : Bool := true
  encoding : Bool := false
  startTime : ℤ

structure ZMPacket where
  timestamp : ℤ
  score : ℤ := 0
  video : Bool := true
  keyframe : Bool := false
  image : Bool := true
  analysisImage : Bool := false
  zoneStats : List (ℕ × ZoneStats) := []

/-- What AddFrame reads of the monitor. The peak is what TakeAudioPeak gives. -/
structure Reading where
  state : State := .idle
  audioPeak : ℤ := 0
  captureFps : ℚ := 0

inductive FrameType
  | normal | bulk | alarm
  deriving DecidableEq

/-- A row of Frames to be; delta is in microseconds. -/
structure Frame where
  frameId : ℕ
  type : FrameType
  timestamp : ℤ
  delta : ℤ
  score : ℤ
  audioLevel : ℤ
  zoneStats : List (ℕ × ZoneStats)

structure Totals where
  frames : ℕ
  alarmFrames : ℕ
  totScore : ℤ
  avgScore : ℤ
  maxScore : ℤ
  maxScoreFrameId : ℕ
  deriving DecidableEq

/-- What is written to the database; the length of an event is in microseconds. -/
inductive Statement
  | insertFrames (frames : List Frame)
  | insertStats (stats : List (ℕ × ℕ × ZoneStats))
  | updateEvent (length : ℤ) (totals : Totals)

inductive ImageFile
  | capture | snapshot | alarm | analyse
  deriving DecidableEq

def maxDbFrames : ℕ := 100

/-- `dbQueue` holds what was pushed and not yet executed, `images` the frames whose picture was
written to a file, and `recorded` the packets the video store got. -/
structure Event where
  frames : ℕ := 0
  alarmFrames : ℕ := 0
  alarmFrameWritten : Bool := false
  totScore : ℤ := 0
  maxScore : ℤ := -1
  maxScoreFrameId : ℕ := 0
  snapshotFileWritten : Bool := false
  frameData : List Frame := []
  lastDbFrame : ℕ := 0
  haveVideoKeyframe : Bool := false
  endTime : ℤ
  dbQueue : List Statement := []
  images : List (ImageFile × ℕ) := []
  recorded : List ZMPacket := []

def eventMaxScoreForDb (maxScore : ℤ) : ℤ := if maxScore < 0 then 0 else maxScore

def frameType (c : Settings) (state : State) (frames : ℕ) (score : ℤ) : FrameType :=
  if score > 0 then .alarm
  else if state = .idle ∧ c.bulkFrameInterval > 1 ∧ (frames : ℤ) % c.bulkFrameInterval = 0 then
    .bulk
  else .normal

namespace Event

variable (c : Settings) (reading : Reading) (packet : ZMPacket)

def totals (e : Event) : Totals where
  frames := e.frames
  alarmFrames := e.alarmFrames
  totScore := e.totScore
  avgScore := if e.alarmFrames ≠ 0 then e.totScore.tdiv e.alarmFrames else 0
  maxScore := e.maxScore
  maxScoreFrameId := e.maxScoreFrameId

/-- The statistics are queued where their text is longer than its head. -/
def writeDbFrames (e : Event) : Event :=
  let stats := if c.recordEventStats
    then e.frameData.flatMap fun f ↦ f.zoneStats.map fun s ↦ (f.frameId, s) else []
  { e with
    frameData := []
    dbQueue := e.dbQueue ++ .insertFrames e.frameData ::
      if stats.isEmpty then [] else [.insertStats stats] }

/-- The files of a frame, and whether one of them needs the row of the frame. -/
def writeImages (type : FrameType) (score : ℤ) (e : Event) : Bool × Event :=
  if packet.image then
    let snapshot := e.frames = 1 || score > e.maxScore || !e.snapshotFileWritten
    let alarm := type = .alarm && !e.alarmFrameWritten
    (snapshot || alarm,
      { e with
        snapshotFileWritten := e.snapshotFileWritten || snapshot
        alarmFrameWritten := e.alarmFrameWritten || alarm
        images := e.images ++
          (if c.saveJpegs.testBit 0 then [(.capture, e.frames)] else []) ++
          (if snapshot then [(.snapshot, e.frames)] else []) ++
          (if alarm then [(.alarm, e.frames)] else []) ++
          if c.saveJpegs.testBit 1 && packet.analysisImage then [(.analyse, e.frames)] else [] })
  else (false, e)

/-- The row of the frame waits for those that are written with it. -/
def pushFrame (type : FrameType) (score : ℤ) (writeToDb : Bool) (e : Event) : Event :=
  let delta := (packet.timestamp - c.startTime).tdiv 1000
  let frame : Frame :=
    ⟨e.frames, type, packet.timestamp, delta, score, reading.audioPeak, packet.zoneStats⟩
  let e := { e with frameData := e.frameData ++ [frame] }
  if writeToDb ∨ e.frameData.length ≥ maxDbFrames ∨ type = .bulk ∨
      (reading.captureFps ≠ 0 ∧ (e.frameData.length : ℚ) > 5 * reading.captureFps) then
    let e := { e.writeDbFrames c with lastDbFrame := e.frames }
    { e with dbQueue := e.dbQueue ++ [.updateEvent delta e.totals] }
  else e

def addFrame (e : Event) : Event :=
  if packet.timestamp = 0 then e
  else
    let frames := e.frames + 1
    let type := frameType c reading.state frames packet.score
    let score := if packet.score < 0 then 0 else packet.score
    let e := { e with
      frames := frames
      alarmFrames := if type = FrameType.alarm then e.alarmFrames + 1 else e.alarmFrames
      totScore := e.totScore + score }
    let written := e.writeImages c packet type score
    let e := written.2
    let raised := if score > e.maxScore
      then { e with maxScore := score, maxScoreFrameId := e.frames } else e
    if type = .bulk ∨ type = .alarm ∨ e.frames = 1 ∨ score > e.maxScore ∨
        reading.state = .alert ∨ reading.state = .alarm ∨ reading.state = .prealarm then
      raised.pushFrame c reading packet type score written.1
    else raised

/-- AddPacket_ without the detections of the packet. -/
def addPacket (e : Event) : Event :=
  let key := e.haveVideoKeyframe || packet.video && (packet.keyframe || c.encoding)
  let e := { e with
    haveVideoKeyframe := key
    recorded := if c.videoStore && key then e.recorded ++ [packet] else e.recorded }
  let e := if packet.video || packet.image then e.addFrame c reading packet else e
  { e with endTime := packet.timestamp }

/-- What is left to write when the thread of the event has ended. -/
def stop (e : Event) : Event := if e.frameData.isEmpty then e else e.writeDbFrames c

/-- The update that closes the event. -/
def closing (now : ℤ) (e : Event) : Statement :=
  let endTime := if e.endTime = 0 then now else e.endTime
  .updateEvent ((endTime - c.startTime).tdiv 1000)
    { e.totals with maxScore := eventMaxScoreForDb e.maxScore }

end Event

/-- An event, and what of its statements has reached the database. -/
structure Recording where
  event : Event
  executed : List Statement := []
  stopped : Bool := false
  finished : Bool := false

inductive Op
  | addPacket (packet : ZMPacket) (reading : Reading)
  | execute
  | stop
  | finish (now : ℤ)

def Recording.init (c : Settings) : Recording := { event := { endTime := c.startTime } }

/-- The event's own thread adds packets until it is stopped, the thread of the queue executes
what was pushed, and the update that closes the event goes past the queue. -/
def step (c : Settings) (s : Recording) : Op → Option Recording
  | .addPacket packet reading =>
    if s.stopped then none else some { s with event := s.event.addPacket c reading packet }
  | .execute =>
    match s.event.dbQueue with
    | [] => none
    | statement :: rest =>
      some { s with
        event := { s.event with dbQueue := rest }
        executed := s.executed ++ [statement] }
  | .stop => if s.stopped then none else some { s with event := s.event.stop c, stopped := true }
  | .finish now =>
    if s.stopped && !s.finished then
      some { s with executed := s.executed ++ [s.event.closing c now], finished := true }
    else none

end ZoneMinder.Recorder
