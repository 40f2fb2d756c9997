import ZoneMinder.EventStream.Frames
import ZoneMinder.EventStream.SetEvent

namespace ZoneMinder.EventStream

open Lib

inductive MsgCommand
  | none | pause | play | stop | fastFwd | slowFwd | slowRev | fastRev | zoomIn | zoomOut | pan
  | scale | prev | next | seek | varPlay | getImage | quit | maxFps | analyzeOn | analyzeOff
  | zoomStop | setEvent | query | other
  deriving DecidableEq

def MsgCommand.ofByte (byte : UInt8) : MsgCommand :=
  match byte.toNat with
  | 0 => .none
  | 1 => .pause
  | 2 => .play
  | 3 => .stop
  | 4 => .fastFwd
  | 5 => .slowFwd
  | 6 => .slowRev
  | 7 => .fastRev
  | 8 => .zoomIn
  | 9 => .zoomOut
  | 10 => .pan
  | 11 => .scale
  | 12 => .prev
  | 13 => .next
  | 14 => .seek
  | 15 => .varPlay
  | 16 => .getImage
  | 17 => .quit
  | 18 => .maxFps
  | 19 => .analyzeOn
  | 20 => .analyzeOff
  | 21 => .zoomStop
  | 22 => .setEvent
  | 99 => .query
  | _ => .other

structure CmdMsg where
  msgData : Bytes
  size : msgData.length = 16

def CmdMsg.command (msg : CmdMsg) : MsgCommand := .ofByte (byteAt msg.msgData 0)

def CmdMsg.word (msg : CmdMsg) (i : ℕ) : ℤ := ofBytes ((msg.msgData.drop i).take 2)

def CmdMsg.int (msg : CmdMsg) (i : ℕ) : ℤ :=
  (ofBytes ((msg.msgData.drop i).take 4) : ℤ).bmod (2 ^ 32)

def rateBase : ℤ := 100

def varplayRateOffset : ℤ := 32768

inductive StreamMode
  | none | single | all | allGapless
  deriving DecidableEq

/-- The event that plays. The duration is in microseconds. -/
structure EventData where
  eventId : ℕ
  monitorId : ℕ
  endTime : ℤ
  duration : ℤ
  frames : List FrameData
  deriving DecidableEq

end ZoneMinder.EventStream

namespace ZoneMinder

open Lib EventStream

/-- The defaults are what the constructors set. A time of zero is TimePoint(). -/
structure EventStream where
  mode : StreamMode := .single
  eventData : EventData
  currFrameId : ℤ := 0
  replayRate : ℤ := rateBase
  paused : Bool := false
  stopped : Bool := false
  step : ℤ := 0
  zoom : ℤ := 100
  scale : ℤ := 100
  x : ℤ := 0
  y : ℤ := 0
  sendFrame : Bool := false
  sendTwice : Bool := false
  forceEventChange : Bool := false
  uiNextHint : EventHint := {}
  uiPrevHint : EventHint := {}
  uiManaged : Bool := false
  hintWaitStart : ℤ := 0
  hintWaitPrev : Bool := false
  endStop : Bool := false
  endStopPrev : Bool := false
  zmTerminate : Bool := false
  deriving DecidableEq

namespace EventStream

variable (s : EventStream)

def numFrames : ℤ := s.eventData.frames.length

def waitingForHint : Bool := s.hintWaitStart != 0

def uiHint (prev : Bool) : EventHint := if prev then s.uiPrevHint else s.uiNextHint

def setUiHint (prev : Bool) (hint : EventHint) : EventStream :=
  if prev then { s with uiPrevHint := hint } else { s with uiNextHint := hint }

def redraw : EventStream :=
  let s := { s with sendFrame := true }
  if s.paused then { s with step := 1, sendTwice := true } else s

def varplayRate (rate : ℤ) : ℤ :=
  if rate > 50 * rateBase then 50 * rateBase
  else if rate < -50 * rateBase then -50 * rateBase
  else rate

def fastFwdRate (rate : ℤ) : ℤ :=
  if rate = 2 * rateBase then 5 * rateBase
  else if rate = 5 * rateBase then 10 * rateBase
  else if rate = 10 * rateBase then 25 * rateBase
  else if rate = 25 * rateBase ∨ rate = 50 * rateBase then 50 * rateBase
  else 2 * rateBase

def fastRevRate (rate : ℤ) : ℤ :=
  if rate = -1 * rateBase then -2 * rateBase
  else if rate = -2 * rateBase then -5 * rateBase
  else if rate = -5 * rateBase then -10 * rateBase
  else if rate = -10 * rateBase then -25 * rateBase
  else if rate = -25 * rateBase ∨ rate = -50 * rateBase then -50 * rateBase
  else -1 * rateBase

def play : EventStream :=
  let s := { s with stopped := false, paused := false }
  let s := if (s.mode = .single ∨ s.mode = .none) ∧ s.currFrameId ≥ s.numFrames
    then { s with currFrameId := 1 } else s
  { s with replayRate := rateBase }

def slowFwd : EventStream :=
  let s := { s with stopped := false, paused := true, replayRate := rateBase, step := 1 }
  if s.currFrameId < s.numFrames then { s with currFrameId := s.currFrameId + 1 } else s

def slowRev : EventStream :=
  let s := { s with stopped := false, paused := true, replayRate := rateBase, step := -1 }
  if s.currFrameId > 1 then { s with currFrameId := s.currFrameId - 1 } else s

/-- The first frame behind `offset`, counted from zero. -/
def upperBound (offset : ℤ) : ℕ :=
  (s.eventData.frames.takeWhile fun frame ↦ !decide (offset < frame.offset)).length

/-- CMD_SEEK, to an offset in microseconds. -/
def seek (offset : ℤ) : EventStream :=
  if offset < 0 then s
  else
    let offset := min offset s.eventData.duration
    if s.eventData.frames.isEmpty then { s with currFrameId := 1 }
    else
      let it := s.upperBound offset
      let it := if it ≠ 0 then it - 1 else it
      { s with currFrameId := it + 1 }.redraw

/-- A hint can restart a stream that stopped at the end of its event. -/
def resume (command : SetEventCommand) (now : ℤ) : EventStream :=
  if hintResumes command s.endStop s.endStopPrev then
    { s with endStop := false, paused := false, hintWaitStart := now, hintWaitPrev := command.prev }
  else s

def setEvent (command : SetEventCommand) (now : ℤ) : EventStream :=
  let s := { s with uiManaged := true }
  if hintIsFor command.hint s.eventData.eventId then
    (s.setUiHint command.prev command.hint).resume command now
  else s

/-- The switch of processCommand. -/
def obey (msg : CmdMsg) (now : ℤ) : EventStream :=
  match msg.command with
  | .pause => { s with stopped := false, paused := true }
  | .play => s.play
  | .varPlay =>
    { s with
      stopped := false, paused := false
      replayRate := varplayRate (msg.word 1 - varplayRateOffset) }
  | .stop => { s with stopped := true, paused := false, step := 0, sendTwice := false }
  | .fastFwd => { s with stopped := false, paused := false, replayRate := fastFwdRate s.replayRate }
  | .slowFwd => s.slowFwd
  | .slowRev => s.slowRev
  | .fastRev => { s with stopped := false, paused := false, replayRate := fastRevRate s.replayRate }
  | .zoomIn => { s with x := msg.word 1, y := msg.word 3, zoom := s.zoom + 10 }.redraw
  | .zoomOut => { s with zoom := if s.zoom - 10 < 100 then 100 else s.zoom - 10 }.redraw
  | .zoomStop => { s with zoom := 100 }.redraw
  | .pan => { s with x := msg.word 1, y := msg.word 3 }.redraw
  | .scale => { s with scale := msg.word 1 }.redraw
  | .prev =>
    { s with
      currFrameId := if s.replayRate ≥ 0 then 0 else s.numFrames + 1
      paused := false, forceEventChange := true }
  | .next =>
    { s with
      currFrameId := if s.replayRate ≥ 0 then s.numFrames + 1 else 0
      paused := false, forceEventChange := true }
  | .seek => s.seek (msg.int 1 * 1000000 + msg.int 5)
  | .setEvent => s.setEvent (decodeSetEvent msg.msgData) now
  | .quit => { s with zmTerminate := true }
  | _ => s

/-- The wait for a hint ends with the first command that can move or redirect playback. -/
def processCommand (msg : CmdMsg) (now : ℤ) : EventStream :=
  if msg.command ≠ .query ∧ msg.command ≠ .setEvent then
    { s with hintWaitStart := 0, endStop := false }.obey msg now
  else s.obey msg now

/-- What a round of runStream reads besides the stream. Times are in nanoseconds, and `sent`
and `sentAgain` are what sending a frame or a text comes to. -/
structure Tick where
  frameMod : ℤ
  sinceLastSend : ℤ
  timeToEvent : ℤ
  sent : Bool
  sentAgain : Bool

def due (tick : Tick) (holding : Bool) : EventStream :=
  let s := { s with sendFrame := false }
  if s.stopped then s
  else if !s.paused && !holding then { s with sendFrame := true }
  else if s.step ≠ 0 then { s with step := 0, sendFrame := true }
  else if tick.sinceLastSend > 5000000000 then { s with sendFrame := true }
  else s

/-- What sendFrame does to the stream. -/
def clampFrame : EventStream :=
  if s.eventData.frames.isEmpty then s
  else { s with currFrameId := max 1 (min s.currFrameId s.numFrames) }

def sendFrames (tick : Tick) : EventStream × Bool :=
  if s.sendFrame then
    let s := s.clampFrame
    if !(s.eventData.frames.isEmpty || tick.sent) then (s, false)
    else if s.sendTwice then
      let s := { s with sendTwice := false }.clampFrame
      (s, s.eventData.frames.isEmpty || tick.sentAgain)
    else (s, true)
  else (s, true)

def nextFrame (frameMod : ℤ) (holding : Bool) : ℤ :=
  if !s.paused && !s.stopped && !holding && !s.eventData.frames.isEmpty
      && decide (1 ≤ s.currFrameId) && decide (s.currFrameId ≤ s.numFrames) then
    let next := s.currFrameId + if s.replayRate > 0 then frameMod else -1 * frameMod
    if s.mode = .single ∧ (next < 1 ∨ next > s.numFrames) then 1 else next
  else if holding then s.currFrameId
  else if !s.stopped then s.currFrameId + s.step
  else s.currFrameId

/-- A round of runStream up to its sleep. -/
def advance (tick : Tick) : EventStream :=
  let holding := s.waitingForHint
  let s := s.due tick holding
  if !s.stopped && decide (tick.timeToEvent > 0) && s.mode = .all then
    if tick.sinceLastSend > 1000000000 then
      { s with zmTerminate := s.zmTerminate || !tick.sent, sendFrame := false }
    else s
  else
    let (s, sent) := s.sendFrames tick
    if !sent then { s with zmTerminate := true }
    else { s with currFrameId := s.nextFrame tick.frameMod holding }

structure EventRecord where
  eventId : ℕ
  monitorId : ℕ
  row : EventRow
  rows : List Row

/-- What checkEventLoaded reads besides the stream: the clock, the database, and what a load
takes beside its rows. -/
structure World where
  now : ℤ
  events : List EventRecord
  arith : Arith
  running : List Bool

def eventExists (world : World) (eventId : ℕ) : Bool :=
  world.events.any fun event ↦ event.eventId == eventId

/-- No result where the stream ends: the event is not there, or its frames do not fill. -/
def loadEventData (world : World) (eventId : ℕ) : Option EventData := do
  let event ← world.events.find? fun event ↦ event.eventId == eventId
  let (frames, _) ← (loadFrames world.arith event.row event.rows world.running).toOption
  return ⟨eventId, event.monitorId, event.row.endTime, event.row.duration, frames⟩

/-- The query for the event before or behind the one that plays, zero if there is none. -/
def sameMonitorEvent (world : World) (prev : Bool) : ℕ :=
  let ids := (world.events.filter fun event ↦ event.monitorId == s.eventData.monitorId).map (·.eventId)
  let found := if prev then (ids.filter (· < s.eventData.eventId)).max?
    else (ids.filter (· > s.eventData.eventId)).min?
  found.getD 0

inductive Course
  | stay | reload
  | leave (prev : Bool)
  deriving DecidableEq

def course : Course :=
  if s.waitingForHint then .leave s.hintWaitPrev
  else if s.currFrameId ≤ 0 then .leave true
  else if s.currFrameId > s.numFrames then
    if s.eventData.endTime = 0 then .reload else .leave false
  else .stay

def boundaryFrame (prev : Bool) : ℤ :=
  if prev then 1 else if s.numFrames > 0 then s.numFrames else 1

/-- What checkEventLoaded returns, with whether it ran the same-monitor query. -/
structure Checked where
  stream : EventStream
  loaded : Bool := false
  queried : Bool := false
  deriving DecidableEq

def reload (world : World) : Option Checked := do
  let eventData ← loadEventData world s.eventData.eventId
  let s := { s with eventData := eventData }
  if s.numFrames = 0 ∨ s.currFrameId > s.numFrames then
    return { stream := { s with currFrameId := if s.numFrames > 0 then s.numFrames else 1 } }
  else return { stream := s }

/-- Playback goes on with the event of the id, or pauses if the id is zero. -/
def change (world : World) (prev : Bool) (newEventId : ℕ) (queried : Bool) : Option Checked :=
  let s := { s with hintWaitStart := 0 }
  if newEventId ≠ 0 then do
    let eventData ← loadEventData world newEventId
    let s := { s with eventData := eventData, forceEventChange := false }
    let first := if s.replayRate < 0 then if s.numFrames > 0 then s.numFrames else 1 else 1
    return { stream := { s with currFrameId := first }, loaded := true, queried := queried }
  else
    return {
      stream :=
        { s with
          forceEventChange := false
          endStop := s.uiManaged
          endStopPrev := prev
          currFrameId := s.boundaryFrame prev
          paused := true }
      queried := queried }

/-- In microseconds; the clock counts nanoseconds. -/
def waited (now : ℤ) : ℤ := if s.waitingForHint then (now - s.hintWaitStart).tdiv 1000 else 0

def leave (world : World) (prev : Bool) : Option Checked :=
  if s.forceEventChange ∨ s.mode ≠ .single ∧ s.mode ≠ .none then
    let hint := s.uiHint prev
    match chooseNeighbour hint s.eventData.eventId s.uiManaged (s.waited world.now) with
    | .wait =>
      if s.waitingForHint then some { stream := s }
      else some {
        stream :=
          { s with
            hintWaitStart := world.now
            hintWaitPrev := prev
            currFrameId := s.boundaryFrame prev } }
    | .hint => s.change world prev (if eventExists world hint.eventId then hint.eventId else 0) false
    | .boundary => s.change world prev 0 false
    | .timedOut => s.change world prev 0 false
    | .sameMonitor => s.change world prev (s.sameMonitorEvent world prev) true
  else
    some {
      stream :=
        { s with hintWaitStart := 0, currFrameId := s.boundaryFrame prev, paused := true } }

def checkEventLoaded (world : World) : Option Checked :=
  match s.course with
  | .stay => some { stream := s }
  | .reload => s.reload world
  | .leave prev => s.leave world prev

section Frame

variable {β : Type} {f : EventStream → β}

/-- What does not look at where playback is and how it goes. -/
def IgnoresMotion (f : EventStream → β) : Prop :=
  ∀ (s : EventStream) (currFrameId replayRate step : ℤ) (paused stopped sendFrame sendTwice : Bool),
    f { s with currFrameId, replayRate, step, paused, stopped, sendFrame, sendTwice } = f s

def steer (s : EventStream) (msg : CmdMsg) (now : ℤ) : EventStream :=
  match msg.command with
  | .zoomIn => { s with x := msg.word 1, y := msg.word 3, zoom := s.zoom + 10 }
  | .zoomOut => { s with zoom := if s.zoom - 10 < 100 then 100 else s.zoom - 10 }
  | .zoomStop => { s with zoom := 100 }
  | .pan => { s with x := msg.word 1, y := msg.word 3 }
  | .scale => { s with scale := msg.word 1 }
  | .prev | .next => { s with forceEventChange := true }
  | .setEvent => s.setEvent (decodeSetEvent msg.msgData) now
  | .quit => { s with zmTerminate := true }
  | _ => s

theorem IgnoresMotion.redraw (h : IgnoresMotion f) (s : EventStream) : f s.redraw = f s := by
  rw [EventStream.redraw]
  split
  · exact h s _ _ _ _ _ _ _
  · exact h s _ _ _ _ _ _ _

theorem IgnoresMotion.obey (h : IgnoresMotion f) (s : EventStream) (msg : CmdMsg) (now : ℤ) :
    f (s.obey msg now) = f (s.steer msg now) := by
  unfold EventStream.obey steer
  cases msg.command
  case play =>
    simp only [play]
    split
    · exact h s _ _ _ _ _ _ _
    · exact h s _ _ _ _ _ _ _
  case slowFwd =>
    simp only [slowFwd]
    split
    · exact h s _ _ _ _ _ _ _
    · exact h s _ _ _ _ _ _ _
  case slowRev =>
    simp only [slowRev]
    split
    · exact h s _ _ _ _ _ _ _
    · exact h s _ _ _ _ _ _ _
  case seek =>
    simp only [seek]
    split
    · rfl
    split
    · exact h s _ _ _ _ _ _ _
    · exact (h.redraw _).trans (h s _ _ _ _ _ _ _)
  case prev => exact h { s with forceEventChange := true } _ _ _ _ _ _ _
  case next => exact h { s with forceEventChange := true } _ _ _ _ _ _ _
  all_goals first
    | rfl
    | exact h.redraw _
    | exact h s _ _ _ _ _ _ _

def IgnoresHints (f : EventStream → β) : Prop :=
  ∀ (s : EventStream) (uiManaged paused endStop hintWaitPrev : Bool)
    (uiNextHint uiPrevHint : EventHint) (hintWaitStart : ℤ),
    f { s with uiManaged, paused, endStop, hintWaitPrev, uiNextHint, uiPrevHint, hintWaitStart } =
      f s

theorem IgnoresHints.setEvent (h : IgnoresHints f) (s : EventStream) (command : SetEventCommand)
    (now : ℤ) : f (s.setEvent command now) = f s := by
  rw [EventStream.setEvent]
  split
  · rw [resume]
    cases command.prev
    · split
      · exact h s _ _ _ _ _ _ _
      · exact h s _ _ _ _ _ _ _
    · split
      · exact h s _ _ _ _ _ _ _
      · exact h s _ _ _ _ _ _ _
  · exact h s _ _ _ _ _ _ _

end Frame

structure Guidance where
  playing : ℕ
  uiNextHint : EventHint
  uiPrevHint : EventHint
  uiManaged : Bool

def guidance : Guidance :=
  ⟨s.eventData.eventId, s.uiNextHint, s.uiPrevHint, s.uiManaged⟩

def Guidance.uiHint (g : Guidance) (prev : Bool) : EventHint :=
  if prev then g.uiPrevHint else g.uiNextHint

variable {msg : CmdMsg} {now : ℤ}

theorem resume_guidance (command : SetEventCommand) (now : ℤ) :
    (s.resume command now).guidance = s.guidance := by
  rw [resume]
  split
  · rfl
  · rfl

theorem setUiHint_uiHint (prev prev' : Bool) (hint : EventHint) :
    (s.setUiHint prev hint).uiHint prev' = if prev = prev' then hint else s.uiHint prev' := by
  cases prev <;> cases prev' <;> rfl

theorem setEvent_uiHint (command : SetEventCommand) (now : ℤ) (prev : Bool) :
    (s.setEvent command now).uiHint prev =
      if hintIsFor command.hint s.eventData.eventId = true ∧ command.prev = prev then command.hint
      else s.uiHint prev := by
  rw [setEvent]
  split
  · next hfor =>
    change ((_ : EventStream).resume command now).guidance.uiHint prev = _
    rw [resume_guidance]
    refine (setUiHint_uiHint _ _ _ _).trans ?_
    simp only [show hintIsFor command.hint s.eventData.eventId = true from hfor, true_and]
    rfl
  · next hfor =>
    rw [if_neg (fun h ↦ hfor h.1)]
    rfl

theorem setEvent_playing (command : SetEventCommand) (now : ℤ) :
    (s.setEvent command now).eventData.eventId = s.eventData.eventId ∧
    (s.setEvent command now).uiManaged = true := by
  rw [setEvent]
  split
  · have h := resume_guidance ({ s with uiManaged := true }.setUiHint command.prev command.hint)
      command now
    refine ⟨(congrArg Guidance.playing h).trans ?_, (congrArg Guidance.uiManaged h).trans ?_⟩
    · cases command.prev <;> rfl
    · cases command.prev <;> rfl
  · exact ⟨rfl, rfl⟩

theorem obey_guidance (h : msg.command ≠ .setEvent) : (s.obey msg now).guidance = s.guidance := by
  have hmotion : IgnoresMotion guidance := fun _ _ _ _ _ _ _ _ ↦ rfl
  rw [hmotion.obey, steer]
  split
  case h_8 hset => exact absurd hset h
  all_goals rfl

theorem processCommand_guidance (h : msg.command ≠ .setEvent) :
    (s.processCommand msg now).guidance = s.guidance := by
  rw [processCommand]
  split
  · exact obey_guidance _ h
  · exact obey_guidance _ h

theorem due_guidance (tick : Tick) (holding : Bool) :
    (s.due tick holding).guidance = s.guidance := by
  rw [due]
  split
  · rfl
  split
  · rfl
  split
  · rfl
  split
  · rfl
  · rfl

theorem clampFrame_guidance : s.clampFrame.guidance = s.guidance := by
  rw [clampFrame]
  split
  · rfl
  · rfl

theorem sendFrames_guidance (tick : Tick) : (s.sendFrames tick).1.guidance = s.guidance := by
  rw [sendFrames]
  dsimp only
  split
  · split
    · exact s.clampFrame_guidance
    split
    · exact (clampFrame_guidance _).trans s.clampFrame_guidance
    · exact s.clampFrame_guidance
  · rfl

theorem advance_guidance (tick : Tick) : (s.advance tick).guidance = s.guidance := by
  have hdue := s.due_guidance tick s.waitingForHint
  rw [advance]
  split
  · split
    · exact hdue
    · exact hdue
  · have hsent := ((s.due tick s.waitingForHint).sendFrames_guidance tick).trans hdue
    dsimp only
    split
    · exact hsent
    · exact hsent

end EventStream

end ZoneMinder
