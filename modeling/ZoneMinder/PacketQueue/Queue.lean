import Mathlib.Algebra.Group.Int.Defs
import Mathlib.Algebra.Order.Monoid.Unbundled.WithTop
import Mathlib.Data.Int.ConditionallyCompleteOrder
import Mathlib.Order.Lattice.Nat
import ZoneMinder.Lib.Keyed
import ZoneMinder.Lib.Run
import ZoneMinder.Lib.Walk

namespace ZoneMinder.PacketQueue

open Lib

def noPts : ℤ := -2 ^ 63

/-- What the queue reads of a ZMPacket. Every packet is queued once, so its queue index
stands for the shared pointer. -/
structure Packet where
  queueIndex : ℕ
  streamIndex : ℤ
  keyframe : Bool
  dts : ℤ
  deriving DecidableEq

/-- What an iterator to this packet compares equal to. -/
def Packet.position (p : Packet) : WithTop ℕ := p.queueIndex

/-- A registered iterator: the pointer handed out (`id`) and the element it points to, by
queue index, with `⊤` for end(). `waiting` is an iterator get_video_it has not returned
yet. `since` is history: the releases that had moved released_before_ when it was
handed out. -/
structure Iterator where
  id : ℕ
  position : WithTop ℕ
  waiting : Bool
  since : ℕ
  deriving DecidableEq

/-- What no operation reads: the packets ever put on a release list, the number of
releases that moved released_before_, the earliest iterator the last one saw, and the
packets queued since the last clear(). -/
structure History where
  released : List ℕ
  releases : ℕ
  earliest : WithTop ℕ
  accepted : List Packet
  deriving DecidableEq

/-- packet_counts is null exactly when max_stream_id is -1, and has max_stream_id + 1
elements otherwise. -/
structure Queue where
  pktQueue : List Packet
  videoStreamId : ℤ
  maxVideoPacketCount : ℤ
  preEventVideoPacketCount : ℤ
  maxStreamId : ℤ
  packetCounts : ℤ → ℤ
  deleting : Bool
  keepKeyframes : Bool
  iterators : List Iterator
  nextIterator : ℕ
  warnedCount : ℕ
  hasOutOfOrderPackets : Bool
  maxKeyframeInterval : ℕ
  framesSinceLastKeyframe : ℕ
  clearPacketsPending : Bool
  nextQueueIndex : ℕ
  releasedBefore : ℕ
  cappedBefore : ℕ
  keyframeIntervalOverLimit : Bool
  zmTerminate : Bool
  history : History

def Queue.init : Queue where
  pktQueue := []
  videoStreamId := -1
  maxVideoPacketCount := -1
  preEventVideoPacketCount := -1
  maxStreamId := -1
  packetCounts := fun _ ↦ 0
  deleting := false
  keepKeyframes := false
  iterators := []
  nextIterator := 0
  warnedCount := 0
  hasOutOfOrderPackets := false
  maxKeyframeInterval := 0
  framesSinceLastKeyframe := 0
  clearPacketsPending := false
  nextQueueIndex := 0
  releasedBefore := 0
  cappedBefore := 0
  keyframeIntervalOverLimit := false
  zmTerminate := false
  history := ⟨[], 0, ⊤, []⟩

namespace Queue

def isVideo (s : Queue) (p : Packet) : Bool := p.streamIndex = s.videoStreamId

def isVideoKeyframe (s : Queue) (p : Packet) : Bool := s.isVideo p && p.keyframe

def count? (s : Queue) (stream : ℤ) : Option ℤ :=
  if 0 ≤ stream ∧ stream ≤ s.maxStreamId then some (s.packetCounts stream) else none

def addCount (stream d : ℤ) (s : Queue) : Option Queue :=
  if 0 ≤ stream ∧ stream ≤ s.maxStreamId then
    some { s with
      packetCounts := Function.update s.packetCounts stream (s.packetCounts stream + d) }
  else none

def front : List Packet → WithTop ℕ
  | [] => ⊤
  | p :: _ => p.position

def from? (s : Queue) (position : WithTop ℕ) : Option (Packet × List Packet) :=
  match s.pktQueue.dropWhile (·.position ≠ position) with
  | [] => none
  | p :: rest => some (p, rest)

def back? (s : Queue) (position : WithTop ℕ) : Option (List Packet) := do
  let (p, _) ← s.from? position
  return p :: (s.pktQueue.takeWhile (·.position ≠ position)).reverse

def onIterator (id : ℕ) (f : Iterator → Option Iterator) (s : Queue) : Option Queue := do
  let it ← s.iterators.find? (·.id = id)
  let it' ← f it
  return { s with iterators := s.iterators.map fun x ↦ if x.id = id then it' else x }

/-- The smallest queue index an iterator points to, `⊤` (UINT64_MAX) if all are at end(). -/
def minIterator (s : Queue) : WithTop ℕ := (s.iterators.map (·.position)).foldr min ⊤

/-- pop_front() and the counter that goes with it; `rest` is the queue without its front. -/
def popFront (p : Packet) (rest : List Packet) (s : Queue) : Option Queue :=
  addCount p.streamIndex (-1) { s with pktQueue := rest }

def outOfOrder (add : Packet) (s : Queue) : Bool :=
  match s.pktQueue.reverse.find? (·.streamIndex = add.streamIndex) with
  | none => false
  | some prev => add.dts < prev.dts

def noteOrder (add : Packet) (s : Queue) : Queue :=
  if s.hasOutOfOrderPackets = false ∧ add.dts ≠ noPts then
    { s with hasOutOfOrderPackets := s.outOfOrder add }
  else s

def noteKeyframe (add : Packet) (s : Queue) : Queue :=
  if s.isVideo add = false then s
  else if add.keyframe = false then
    { s with
      framesSinceLastKeyframe := s.framesSinceLastKeyframe + 1
      maxKeyframeInterval := max s.maxKeyframeInterval (s.framesSinceLastKeyframe + 1)
      keyframeIntervalOverLimit := s.keyframeIntervalOverLimit ||
        s.keepKeyframes && decide (0 < s.maxVideoPacketCount ∧
          s.maxVideoPacketCount < s.framesSinceLastKeyframe + 1 + 1) }
  else
    { s with
      framesSinceLastKeyframe := 0
      maxKeyframeInterval := if s.maxKeyframeInterval = 0 then 1 else s.maxKeyframeInterval }

/-- push_back. Iterators at end() now point to the new packet. -/
def pushBack (add : Packet) (s : Queue) : Option Queue :=
  addCount add.streamIndex 1 { s with
    pktQueue := s.pktQueue ++ [add]
    nextQueueIndex := s.nextQueueIndex + 1
    iterators := s.iterators.map fun it ↦
      if it.position = ⊤ then { it with position := add.position } else it
    history := { s.history with accepted := s.history.accepted ++ [add] } }

/-- The search for the next GOP, from the second packet. It would run past the end if
`add` were not in the queue. -/
def findKeyframe (s : Queue) (add : Packet) : List Packet → Option (Option Packet)
  | [] => none
  | p :: rest =>
    if p = add then some none
    else if s.isVideoKeyframe p then some (some p)
    else findKeyframe s add rest

def deletePacket (p : Packet) (rest : List Packet) (s : Queue) : Option Queue :=
  if ∃ it ∈ s.iterators, it.position = ⊤ then none
  else popFront p rest { s with
    iterators := s.iterators.map fun it ↦
      if it.position = p.position then { it with position := front rest } else it }

/-- Delete packets from the front of the queue (the list) until `target` is there. -/
def deleteUntil (target : Packet) : List Packet → Queue → Option Queue
  | [], _ => none
  | p :: rest, s => if p = target then some s
    else (deletePacket p rest s).bind (deleteUntil target rest)

/-- `interrupted` is a signal that ends the search. -/
def trimGop (add : Packet) (interrupted : Bool) (s : Queue) : Option Queue :=
  if interrupted then some { s with zmTerminate := true }
  else (s.findKeyframe add s.pktQueue.tail).bind fun
    | none => some s
    | some target => deleteUntil target s.pktQueue s

def admits (s : Queue) (add : Packet) : Option Bool :=
  if s.deleting || s.zmTerminate then some false
  else if s.iterators = [] then some false
  else (s.count? s.videoStreamId).map fun video ↦ video ≠ 0 || add.keyframe

def full (s : Queue) (add : Packet) : Bool :=
  s.isVideo add && decide (0 < s.maxVideoPacketCount ∧
    s.maxVideoPacketCount < s.packetCounts s.videoStreamId)

def queuePacket (packet : Packet) (interrupted : Bool) (s : Queue) : Option (Bool × Queue) := do
  let admitted ← s.admits packet
  if admitted then
    let add := { packet with queueIndex := s.nextQueueIndex }
    let s ← pushBack add (noteKeyframe add (noteOrder add s))
    if s.full add then
      let s ← trimGop add interrupted
        { s with warnedCount := if s.warnedCount = 0 then 1 else s.warnedCount }
      return (true, s)
    else return (true, { s with warnedCount := s.warnedCount - 1 })
  else return (false, s)

end Queue

end ZoneMinder.PacketQueue
