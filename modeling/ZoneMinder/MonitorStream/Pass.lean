import ZoneMinder.Lib.Ring
import ZoneMinder.Lib.Run
import Mathlib.Logic.Function.Basic

namespace ZoneMinder.MonitorStream

open Lib

def rateBase : ℤ := 100

def varplayRateOffset : ℤ := 32768

inductive Command
  | pause
  | play
  | varplay (packed : UInt16)
  | stop
  | slowFwd
  | slowRev
  | fastFwd
  | fastRev
  deriving DecidableEq

/-- The rate after `CMD_FASTFWD`, and with `-1` for `sign` after `CMD_FASTREV`. -/
def faster (sign rate : ℤ) : ℤ :=
  if rate = sign * (2 * rateBase) then sign * (5 * rateBase)
  else if rate = sign * (5 * rateBase) then sign * (10 * rateBase)
  else if rate = sign * (10 * rateBase) then sign * (25 * rateBase)
  else if rate = sign * (25 * rateBase) ∨ rate = sign * (50 * rateBase) then
    sign * (50 * rateBase)
  else sign * (2 * rateBase)

def Command.rate : Command → ℤ → ℤ
  | .pause, rate | .stop, rate => rate
  | .play, _ | .slowFwd, _ | .slowRev, _ => rateBase
  | .varplay packed, _ => packed.toNat - varplayRateOffset
  | .fastFwd, rate => faster 1 rate
  | .fastRev, rate => faster (-1) rate

def Command.step : Command → ℤ → ℤ
  | .slowFwd, _ => 1
  | .slowRev, _ => -1
  | .stop, _ => 0
  | _, step => step

def Command.pauses : Command → Bool
  | .pause | .slowFwd | .slowRev => true
  | _ => false

/-- The commands that end a pause. -/
def Command.plays : Command → Bool
  | .play | .varplay _ | .fastFwd | .fastRev => true
  | _ => false

/-- Going back to live play clears `paused`, `delayed` and the rate one after the other. -/
inductive Resume
  | paused
  | delayed
  | rate
  deriving DecidableEq

/-- Where the loop goes on after that. -/
inductive Next
  | rewound
  | image
  | top
  deriving DecidableEq

inductive Turn
  | paused
  | delayed
  | read
  deriving DecidableEq

/-- The points of a pass of the loop; a command may be processed at each of them. -/
inductive Pc
  | top
  | delayed
  | overrun
  | paused
  | play
  | turn (stage : Turn)
  | move
  | stepping
  | stepMove
  | stepLook
  | stepBack
  | stepDone
  | keepalive
  | rewound
  | image
  | livePaused
  | liveDelayed
  | liveSend
  | storePaused
  | store
  | storeCheck
  | resume (stage : Resume) (next : Next)
  deriving DecidableEq

def Next.pc : Next → Pc
  | .rewound => .rewound
  | .image => .image
  | .top => .top

/-- An access to the ring. `overrun` says of a store that it overwrote the slot of the read position
while `delayed` was set, and that the positions are not equal after it. -/
inductive Access
  | look (index : ℤ)
  | send (index : ℤ) (stored : Bool)
  | store (index : ℤ) (overrun : Bool)
  deriving DecidableEq

structure Stream where
  tempReadIndex : ℤ
  tempWriteIndex : ℤ
  valid : ℤ → Bool
  stopped : Bool
  paused : Bool
  delayed : Bool
  replayRate : ℤ
  step : ℤ
  pc : Pc
  log : List Access

/-- What a pass finds out: whether capture has a new image, whether a frame is due, and whether
capture's memory and the time of the image are good. -/
structure Input where
  image : Bool
  due : Bool
  storable : Bool
  deriving DecidableEq

def Stream.processCommand (s : Stream) (c : Command) : Stream :=
  let s := { s with replayRate := c.rate s.replayRate, step := c.step s.step }
  if c.pauses then { s with stopped := false, paused := true, delayed := true }
  else if c.plays then
    if s.paused then { s with stopped := false, paused := false, delayed := true }
    else { s with stopped := false }
  else { s with stopped := true, paused := false, delayed := false }

section Advance

variable (n frameMod : ℤ)

/-- The slot that a position refers to. -/
def slot (i : ℤ) : ℤ := modAdd i 0 n

def Stream.resume (s : Stream) (next : Next) : Resume → Stream
  | .paused => { s with paused := false, pc := .resume .delayed next }
  | .delayed => { s with delayed := false, pc := .resume .rate next }
  | .rate => { s with replayRate := rateBase, pc := next.pc }

/-- Nothing is stored in the slot: pause, one slot back. -/
def Stream.turn (s : Stream) : Turn → Stream
  | .paused => { s with paused := true, pc := .turn .delayed }
  | .delayed => { s with delayed := true, pc := .turn .read }
  | .read =>
    { s with
      tempReadIndex := modAdd s.tempReadIndex (if 0 ≤ s.replayRate then -1 else 1) n
      pc := .rewound }

def Stream.play (s : Stream) (i : Input) : Stream :=
  let index := slot n s.tempReadIndex
  if s.valid index then
    if i.due then
      if index.tmod frameMod = 0 then
        { s with log := s.log ++ [.look index, .send index (s.valid index)], pc := .move }
      else { s with log := s.log ++ [.look index], pc := .move }
    else { s with log := s.log ++ [.look index], pc := .rewound }
  else { s with log := s.log ++ [.look index], pc := .turn .paused }

def Stream.stepLook (s : Stream) : Stream :=
  let index := s.tempReadIndex
  if s.valid index = false ∨ index = s.tempWriteIndex then
    { s with log := s.log ++ [.look index], pc := .stepBack }
  else
    { s with log := s.log ++ [.look index, .send index (s.valid index)], pc := .stepDone }

/-- The file and the entry of a slot are this thread's alone: whether `delayed` is set counts when
the file is written. -/
def Stream.store (s : Stream) : Stream :=
  let index := s.tempWriteIndex.tmod n
  let write := modAdd s.tempWriteIndex 1 n
  { s with
    valid := Function.update s.valid index true
    tempWriteIndex := write
    log := s.log ++ [.store index
      (s.delayed && slot n s.tempReadIndex = index && write ≠ s.tempReadIndex)]
    pc := .storeCheck }

/-- The loop of `runStream` up to its next point. -/
def Stream.advance (s : Stream) (i : Input) : Stream :=
  match s.pc with
  | .top => if s.stopped then s else { s with pc := .delayed }
  | .delayed => { s with pc := if s.delayed then .overrun else .image }
  | .overrun =>
    { s with
      pc := if s.tempReadIndex = s.tempWriteIndex then .resume .paused .rewound else .paused }
  | .paused => { s with pc := if s.paused then .stepping else .play }
  | .play => s.play n frameMod i
  | .turn stage => s.turn n stage
  | .move =>
    { s with
      tempReadIndex := modAdd s.tempReadIndex (if 0 < s.replayRate then 1 else -1) n
      pc := .rewound }
  | .stepping => { s with pc := if s.step ≠ 0 then .stepMove else .keepalive }
  | .stepMove =>
    { s with
      tempReadIndex := modAdd s.tempReadIndex (if 0 < s.step then 1 else -1) n
      pc := .stepLook }
  | .stepLook => s.stepLook
  | .stepBack =>
    { s with
      tempReadIndex := modAdd s.tempReadIndex (if 0 < s.step then -1 else 1) n
      pc := .stepDone }
  | .stepDone => { s with step := 0, pc := .rewound }
  | .keepalive =>
    let index := slot n s.tempReadIndex
    if i.due then { s with log := s.log ++ [.send index (s.valid index)], pc := .rewound }
    else { s with pc := .rewound }
  | .rewound =>
    { s with pc := if s.tempReadIndex = s.tempWriteIndex then .resume .paused .image else .image }
  | .image =>
    { s with pc := if i.image then if i.due then .livePaused else .storePaused else .top }
  | .livePaused => { s with pc := if s.paused then .storePaused else .liveDelayed }
  | .liveDelayed => { s with pc := if s.delayed then .storePaused else .liveSend }
  | .liveSend => { s with tempReadIndex := s.tempWriteIndex, pc := .storePaused }
  | .storePaused => { s with pc := if s.paused then .top else .store }
  | .store => if i.storable then s.store n else { s with pc := .top }
  | .storeCheck =>
    { s with pc := if s.tempWriteIndex = s.tempReadIndex then .resume .paused .top else .top }
  | .resume stage next => s.resume next stage

inductive Op
  | command (c : Command)
  | pass (i : Input)
  deriving DecidableEq

def step (s : Stream) : Op → Option Stream
  | .command c => some (s.processCommand c)
  | .pass i => some (s.advance n frameMod i)

/-- Both positions begin at the end of the ring. -/
def init : Stream where
  tempReadIndex := n
  tempWriteIndex := n
  valid := fun _ ↦ false
  stopped := false
  paused := false
  delayed := false
  replayRate := rateBase
  step := 0
  pc := .top
  log := []

end Advance

end ZoneMinder.MonitorStream
