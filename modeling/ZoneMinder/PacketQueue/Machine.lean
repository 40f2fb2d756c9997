import ZoneMinder.PacketQueue.Queue

namespace ZoneMinder.PacketQueue

open Lib

namespace Queue

def tailCount (s : Queue) (add : Packet) : ℕ :=
  (s.pktQueue.reverse.takeWhile (· ≠ add)).countP s.isVideo

/-- clearPackets without keep_keyframes: pop the front (of the list) while more than
`limit` video packets are queued, up to the earliest iterator. -/
def dropOld (add : Packet) (limit : ℤ) (earliest : WithTop ℕ) :
    List Packet → Queue → Option (ℕ × Queue)
  | [], _ => none
  | p :: rest, s => do
    if p = add then return (0, s)
    else
      let video ← s.count? s.videoStreamId
      if video ≤ limit ∨ earliest ≤ p.position then return (0, s)
      else
        let s ← popFront p rest s
        let (removed, s) ← dropOld add limit earliest rest s
        return (removed + 1, s)

/-- The walk of clearPackets over whole GOPs: the last keyframe it may trim to and the
new max_keyframe_interval. It would run past the end if nothing stopped it. -/
def walkGops (s : Queue) (add : Packet) (video limit : ℤ) (earliest : WithTop ℕ) :
    List Packet → (toDelete : ℤ) → (interval : ℕ) → (nextFront : Option Packet) →
      (maxInterval : ℕ) → Option (Option Packet × ℕ)
  | [], _, _, _, _ => none
  | p :: rest, toDelete, interval, nextFront, maxInterval =>
    if p = add then some (nextFront, maxInterval)
    else if earliest < p.position then some (nextFront, maxInterval)
    else if s.isVideo p then
      let maxInterval := if p.keyframe then max maxInterval (interval + 1) else maxInterval
      let nextFront := if p.keyframe then some p else nextFront
      let interval := if p.keyframe then 1 else interval + 1
      if video - (toDelete + 1) ≤ limit then some (nextFront, maxInterval)
      else walkGops s add video limit earliest rest (toDelete + 1) interval nextFront maxInterval
    else walkGops s add video limit earliest rest toDelete interval nextFront maxInterval

def popUntil (target : Packet) : List Packet → Queue → Option Queue
  | [], _ => none
  | p :: rest, s => if p = target then some s
    else (popFront p rest s).bind (popUntil target rest)

def mayClear (s : Queue) (add p : Packet) (video : ℤ) : Bool :=
  s.isVideo add && (add.keyframe || s.clearPacketsPending) &&
    decide (s.preEventVideoPacketCount < video) && decide (p ≠ add)

def clearGops (add p : Packet) (rest : List Packet) (video : ℤ) (s : Queue) :
    Option (Bool × Queue) := do
  let limit := s.preEventVideoPacketCount + s.tailCount add
  if p = add then return (false, s)
  else if s.minIterator ≤ p.position then return (false, { s with clearPacketsPending := true })
  else
    let (nextFront, maxInterval) ←
      walkGops s add video limit s.minIterator rest 0 0 none s.maxKeyframeInterval
    let s := { s with maxKeyframeInterval := maxInterval }
    match nextFront with
    | none => return (false, { s with clearPacketsPending := true })
    | some target =>
      let s ← popUntil target (p :: rest) s
      return (true, { s with clearPacketsPending := false })

/-- none is a read past the queue. -/
def clearPackets (add : Packet) (s : Queue) : Option (Bool × Queue) := do
  if s.deleting then return (false, s)
  else
    let video ← s.count? s.videoStreamId
    if s.keepKeyframes then
      match s.pktQueue with
      | [] => none
      | p :: rest =>
        if s.mayClear add p video then clearGops add p rest video s else return (false, s)
    else
      let limit := s.preEventVideoPacketCount + s.tailCount add
      let (removed, s) ← dropOld add limit s.minIterator s.pktQueue s
      return (0 < removed, { s with clearPacketsPending := removed = 0 })

def release (packets : List Packet) (s : Queue) : Queue :=
  let fresh := packets.filter fun p ↦
    !(p.queueIndex < s.releasedBefore || p.queueIndex < s.cappedBefore)
  { s with history := { s.history with
      released := s.history.released ++ fresh.map (·.queueIndex) } }

/-- The first half of releaseDecoded: everything before the packet `boundary`. -/
def releaseWindow (boundary : Packet) (s : Queue) : Queue :=
  if s.releasedBefore < boundary.queueIndex then
    let s := release (s.pktQueue.takeWhile (·.position ≠ boundary.position)) s
    { s with
      releasedBefore := boundary.queueIndex
      history := { s.history with releases := s.history.releases + 1 } }
  else s

/-- The second half: all but the newest max_video_packet_count video packets, and
nothing from `windowStart` on. -/
def releaseCap (windowStart : ℕ) (s : Queue) : Queue :=
  if s.keepKeyframes = true ∧ 0 < s.maxVideoPacketCount then
    let kept := takeCounted s.isVideo s.maxVideoPacketCount.toNat s.pktQueue.reverse
    if kept.countP s.isVideo = s.maxVideoPacketCount.toNat then
      match kept.getLast? with
      | none => s
      | some oldest =>
        let cap := min oldest.queueIndex windowStart
        if s.cappedBefore < cap then
          { release (s.pktQueue.takeWhile (·.queueIndex < cap)) s with cappedBefore := cap }
        else s
    else s
  else s

def nothing (_ : Packet) : Bool := false

/-- Where releaseDecoded's walk over the pre-event window ends: what is left of the
window, and the packets from there back to the front. -/
def windowStart (s : Queue) : ℕ × List Packet :=
  countBack s.isVideo nothing s.preEventVideoPacketCount.toNat
    (backUntil (fun p ↦ p.position ≤ s.minIterator) nothing s.pktQueue.reverse)

def releaseDecoded (s : Queue) : Queue :=
  if s.deleting = true ∨ s.pktQueue = [] ∨ s.iterators = [] then s
  else
    let s := { s with history := { s.history with earliest := s.minIterator } }
    match s.windowStart with
    | (0, start :: low) =>
      let boundary :=
        if s.keepKeyframes then backUntil s.isVideoKeyframe nothing (start :: low)
        else start :: low
      releaseCap start.queueIndex (releaseWindow (boundary.headD start) s)
    | _ => s

/-- From `k` on, the first video keyframe, looking no further than the snapshot. -/
def keyframeFrom (s : Queue) (snapshot : WithTop ℕ) : List Packet → Option Packet
  | [] => none
  | k :: rest =>
    if s.isVideoKeyframe k then some k
    else if k.position = snapshot ∨ rest = [] then none
    else keyframeFrom s snapshot rest

def startOnKeyframe (s : Queue) (it : Packet) (snapshot : WithTop ℕ) : Packet :=
  if s.keepKeyframes then
    (s.keyframeFrom snapshot (s.pktQueue.dropWhile (·.position ≠ it.position))).getD it
  else it

/-- An event does not start on a packet the first half of releaseDecoded handled. -/
def isReleased (s : Queue) (p : Packet) : Bool := p.queueIndex < s.releasedBefore

def keyframeBefore (s : Queue) (snapshot : WithTop ℕ) (back : List Packet) : Option Packet :=
  match backUntil s.isVideoKeyframe s.isReleased back with
  | [] => none
  | it :: low =>
    if atFront s.isReleased (it :: low) = false then some it
    else if low ≠ [] then some (s.startOnKeyframe it snapshot)
    else some it

def eventAt (s : Queue) (snapshot : WithTop ℕ) : ℕ × List Packet → Option Packet
  | (_, []) => none
  | (left, it :: low) =>
    let left := if s.isVideo it then left - 1 else left
    if 0 < left then
      if low ≠ [] then some (s.startOnKeyframe it snapshot) else some it
    else if s.keepKeyframes then s.keyframeBefore snapshot (it :: low)
    else some it

def eventStart (snapshot : WithTop ℕ) (preEventCount : ℕ) (s : Queue) : Option Packet := do
  let back ← s.back? (if snapshot = ⊤ then front s.pktQueue else snapshot)
  s.eventAt snapshot (countBack s.isVideo s.isReleased preEventCount back)

def getEventStartPacketIt (snapshot : WithTop ℕ) (preEventCount : ℕ) (s : Queue) :
    Option (ℕ × Queue) := do
  let it ← s.eventStart snapshot preEventCount
  return (s.nextIterator, { s with
    iterators := s.iterators ++ [⟨s.nextIterator, it.position, false, s.history.releases⟩]
    nextIterator := s.nextIterator + 1 })

def addStream (s : Queue) : Option Queue :=
  if s.pktQueue ≠ [] then none
  else some { s with
    deleting := false
    videoStreamId := if s.maxStreamId = -1 then 0 else s.videoStreamId
    maxStreamId := s.maxStreamId + 1
    packetCounts := fun _ ↦ 0 }

def firstKeyframe (s : Queue) : WithTop ℕ := front (s.pktQueue.dropWhile fun p ↦ !s.isVideoKeyframe p)

/-- get_video_it up to the point where it returns or waits for the first packet. -/
def getVideoIt (wait : Bool) (s : Queue) : Queue :=
  if wait && (s.deleting || s.zmTerminate) then s
  else
    let it : Iterator :=
      if wait && s.pktQueue = [] then ⟨s.nextIterator, ⊤, true, s.history.releases⟩
      else ⟨s.nextIterator, s.firstKeyframe, false, s.history.releases⟩
    { s with iterators := s.iterators ++ [it], nextIterator := s.nextIterator + 1 }

def wakeVideoIt (id : ℕ) (s : Queue) : Option Queue := do
  let it ← s.iterators.find? (·.id = id)
  if it.waiting = false then none
  else if s.deleting || s.zmTerminate then
    return { s with iterators := s.iterators.filter (·.id ≠ id) }
  else if s.pktQueue = [] then return s
  else onIterator id (fun _ ↦ some ⟨id, s.firstKeyframe, false, s.history.releases⟩) s

def advance (id : ℕ) (next : List Packet → WithTop ℕ) (s : Queue) : Option Queue :=
  onIterator id (fun it ↦
    if it.waiting then none
    else if it.position = ⊤ then some it
    else (s.from? it.position).map fun (_, rest) ↦ { it with position := next rest }) s

/-- increment_it and its test for the end of the queue; a caller that has to wait calls
again. -/
def incrementIt (id : ℕ) (wait : Bool) (s : Queue) : Option Queue :=
  if s.deleting || wait && s.zmTerminate then some s else advance id front s

def incrementItStream (id : ℕ) (stream : ℤ) (s : Queue) : Option Queue :=
  advance id (fun rest ↦ front (rest.dropWhile (·.streamIndex ≠ stream))) s

/-- `locked` is the outcome of trylock. -/
def getPacketAndIncrementIt (id : ℕ) (locked : Bool) (s : Queue) : Option Queue :=
  if s.deleting || s.zmTerminate || !locked then some s else advance id front s

def freeIt (id : ℕ) (s : Queue) : Queue :=
  { s with iterators := s.iterators.eraseP fun it ↦ it.id = id ∧ it.waiting = false }

def clear (s : Queue) : Queue :=
  let s := { s with deleting := true, history := { s.history with accepted := [] } }
  if s.maxStreamId = -1 then s
  else { s with
    pktQueue := []
    iterators := s.iterators.map fun it ↦ { it with position := ⊤ }
    packetCounts := fun _ ↦ 0
    maxStreamId := -1
    maxKeyframeInterval := 0
    keyframeIntervalOverLimit := false }

def setMaxVideoPackets (p : ℤ) (s : Queue) : Queue :=
  { s with maxVideoPacketCount := max p 0, keyframeIntervalOverLimit := false }

def setPreEventVideoPackets (p : ℤ) (s : Queue) : Queue :=
  { s with preEventVideoPacketCount := max p 1 }

def setKeepKeyframes (k : Bool) (s : Queue) : Queue :=
  { s with keepKeyframes := k, keyframeIntervalOverLimit := false }

end Queue

inductive Op
  | addStream
  | queuePacket (packet : Packet) (interrupted : Bool)
  | clearPackets (add : Packet)
  | releaseDecoded
  | getVideoIt (wait : Bool)
  | wakeVideoIt (id : ℕ)
  | incrementIt (id : ℕ) (wait : Bool)
  | incrementItStream (id : ℕ) (stream : ℤ)
  | getPacketAndIncrementIt (id : ℕ) (locked : Bool)
  | freeIt (id : ℕ)
  | getEventStartPacketIt (snapshot : WithTop ℕ) (preEventCount : ℕ)
  | stop
  | clear
  | setMaxVideoPackets (p : ℤ)
  | setPreEventVideoPackets (p : ℤ)
  | setKeepKeyframes (k : Bool)
  | terminate
  deriving DecidableEq

open Queue

/-- One call under the queue's mutex; none is undefined behaviour. -/
def step (s : Queue) : Op → Option Queue
  | .addStream => s.addStream
  | .queuePacket packet interrupted => (queuePacket packet interrupted s).map Prod.snd
  | .clearPackets add => (clearPackets add s).map Prod.snd
  | .releaseDecoded => some s.releaseDecoded
  | .getVideoIt wait => some (getVideoIt wait s)
  | .wakeVideoIt id => wakeVideoIt id s
  | .incrementIt id wait => incrementIt id wait s
  | .incrementItStream id stream => incrementItStream id stream s
  | .getPacketAndIncrementIt id locked => getPacketAndIncrementIt id locked s
  | .freeIt id => some (freeIt id s)
  | .getEventStartPacketIt snapshot n => (getEventStartPacketIt snapshot n s).map Prod.snd
  | .stop => some { s with deleting := true }
  | .clear => some s.clear
  | .setMaxVideoPackets p => some (setMaxVideoPackets p s)
  | .setPreEventVideoPackets p => some (setPreEventVideoPackets p s)
  | .setKeepKeyframes k => some (setKeepKeyframes k s)
  | .terminate => some { s with zmTerminate := true }

end ZoneMinder.PacketQueue
