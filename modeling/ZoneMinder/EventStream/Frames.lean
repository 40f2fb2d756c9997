import Mathlib.Data.Rat.Floor

namespace ZoneMinder.EventStream

/-- A frame of the table that playback works on. The system clock counts nanoseconds, offset
and delta are microseconds. -/
structure FrameData where
  id : ℤ
  timestamp : ℤ
  offset : ℤ
  delta : ℤ
  inDb : Bool
  deriving DecidableEq

structure Row where
  frameId : ℤ
  delta : ℚ

/-- What the floating point of the fills comes to: `micros` is the duration_cast of a number
of seconds, `toInt` the static_cast<int> of a double. -/
structure Arith where
  micros : ℚ → ℤ
  toInt : ℚ → ℤ

/-- What the fills need of the row of Events. `duration` is in microseconds. -/
structure EventRow where
  frameCount : ℤ
  startTime : ℤ
  endTime : ℤ
  duration : ℤ

inductive Fault
  | outOfRange
  | unfinished
  deriving DecidableEq

def frameAt (frames : List FrameData) (i : ℤ) : Except Fault FrameData :=
  if i < 0 then .error .outOfRange
  else
    match frames[i.toNat]? with
    | none => .error .outOfRange
    | some frame => .ok frame

structure Fill where
  frames : List FrameData := []
  lastId : ℤ := 0
  lastTimestamp : ℤ
  lastOffset : ℤ := 0
  lastFrameIdx : ℤ := -1

def Fill.emplaceBack (c : Fill) (frame : FrameData) : Fill :=
  { c with frames := c.frames ++ [frame], lastFrameIdx := c.frames.length }

section

variable (startTime delta : ℤ)

def bulkFrame (c : Fill) (i : ℤ) : Except Fault Fill := do
  let prev ← frameAt c.frames c.lastFrameIdx
  return c.emplaceBack
    { id := i
      timestamp := c.lastTimestamp + 1000 * ((i - c.lastId) * delta)
      offset := (prev.timestamp - startTime + 1000 * delta).tdiv 1000
      delta := delta
      inDb := false }

def bulkFill (c : Fill) (i : ℤ) : ℕ → Except Fault Fill
  | 0 => return c
  | n + 1 => do bulkFill (← bulkFrame startTime delta c i) (i + 1) n

def fillGap (c : Fill) (id : ℤ) : Except Fault Fill :=
  if id - c.lastId > 1 then
    bulkFill startTime delta c (c.lastId + 1) (id - (c.lastId + 1)).toNat
  else return c

def addRow (arith : Arith) (c : Fill) (row : Row) : Except Fault Fill := do
  let id := row.frameId
  let offset := arith.micros row.delta
  let timestamp := startTime + 1000 * offset
  let idDiff := id - c.lastId
  let delta := if idDiff ≠ 0 then (offset - c.lastOffset).tdiv idDiff else offset - c.lastOffset
  let c ← fillGap startTime delta c id
  return { c.emplaceBack ⟨id, timestamp, offset, delta, true⟩ with
    lastId := id, lastOffset := offset, lastTimestamp := timestamp }

/-- The loop behind the last row. The flags are what `!zm_terminate` reads in its iterations,
and true from there on. -/
def trailingFill (endTime : ℤ) (c : Fill) (running : List Bool) : ℕ → Except Fault Fill
  | 0 => .error .unfinished
  | fuel + 1 =>
    if endTime > c.lastTimestamp && running.headD true then
      let c := { c with lastTimestamp := c.lastTimestamp + 1000 * delta }
      if endTime < c.lastTimestamp then .ok c
      else do
        let c := { c with lastId := c.lastId + 1 }
        let prev ← frameAt c.frames c.lastFrameIdx
        trailingFill endTime
          (c.emplaceBack ⟨c.lastId, c.lastTimestamp, prev.offset + delta, delta, false⟩)
          running.tail fuel
    else .ok c

end

def seconds (micros : ℤ) : ℚ := micros / 1000000

/-- What updateFrameRate makes of the event's frame rate. -/
def baseFps (event : EventRow) : ℚ :=
  let fps := if event.frameCount ≠ 0 ∧ event.duration ≠ 0
    then event.frameCount / seconds event.duration else 1
  if fps ≤ 0 then 0 else fps

/-- The frame that the trailing ones follow, and the time between them. -/
def trailingStart (arith : Arith) (event : EventRow) (frameCount : ℤ) (c : Fill) : Fill × ℤ :=
  if c.lastFrameIdx < 0 then
    ({ c.emplaceBack ⟨1, event.startTime, 0, 0, false⟩ with
        lastId := c.lastId + 1, lastTimestamp := event.startTime },
      arith.toInt (1000000 * baseFps event / seconds event.duration))
  else (c, ((event.endTime - c.lastTimestamp).tdiv (frameCount - c.lastId)).tdiv 1000)

def trailing (arith : Arith) (event : EventRow) (frameCount : ℤ) (running : List Bool)
    (c : Fill) : Except Fault Fill :=
  if event.endTime ≠ 0 ∧ event.duration ≠ 0 ∧ frameCount > c.lastId then
    let (c, delta) := trailingStart arith event frameCount c
    if delta > 0 then
      trailingFill delta event.endTime c running ((event.endTime - c.lastTimestamp).toNat + 1)
    else .ok c
  else .ok c

def loadFrames (arith : Arith) (event : EventRow) (rows : List Row) (running : List Bool) :
    Except Fault (List FrameData × ℤ) := do
  let frameCount := max event.frameCount rows.length
  let c ← rows.foldlM (addRow event.startTime arith) { lastTimestamp := event.startTime }
  let c ← trailing arith event frameCount running c
  return (c.frames, c.lastId)

end ZoneMinder.EventStream
