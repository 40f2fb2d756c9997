import Mathlib.Logic.Function.Basic
import ZoneMinder.Lib.Run
import ZoneMinder.StreamSocket.Connection

namespace ZoneMinder.StreamSocket

open Lib Function

/-- The socket's state under its mutex. `hello` and `helloPayload` at `.video` and
`.audio` are hello_video_, hello_audio_ and their payloads, `sequence` is sequence_[2]. -/
structure Socket where
  connections : List Connection
  hello : StreamId → Option Message
  keyframe : Option Message
  snapshotPayload : Bytes
  helloPayload : StreamId → Bytes
  generation : UInt32
  sequence : StreamId → UInt32
  eventSequence : UInt32

def Socket.init : Socket := ⟨[], fun _ ↦ none, none, [], fun _ ↦ [], 0, fun _ ↦ 0, 0⟩

def frame (header : Header) (payload : Bytes) (control : Bool) : Message :=
  ⟨serializeHeader header, payload, control, serializeHeader_length header⟩

def Message.decoded (m : Message) : Header := readHeader m.header

@[simp] theorem decoded_frame (header : Header) (payload : Bytes) (control : Bool) :
    (frame header payload control).decoded = header := readHeader_serializeHeader header

@[simp] theorem control_frame (header : Header) (payload : Bytes) (control : Bool) :
    (frame header payload control).control = control := rfl

def makeMessage (generation : UInt32) (type : MessageType) (stream : StreamId) (flags : UInt8)
    (sequence : UInt32) (ptsUs : Int64) (payload : Bytes) (control : Bool) : Message :=
  frame
    { length := kHeaderLengthBytes + UInt32.ofNat payload.length
      version := kProtocolVersion
      type := type.toByte
      stream := stream.toByte
      flags := flags
      sequence := sequence
      generation := generation
      ptsUs := ptsUs } payload control

variable (cfg : Config)

def broadcastLocked (m : Message) (s : Socket) : Socket :=
  { s with connections := s.connections.map (enqueue cfg m) }

/-- The audio and the video half of ApplyStreamsLocked's end: forget a stream that
is gone, announce one that is new or has to be announced `again`. -/
def announce (stream : StreamId) (again : Bool) (s : Socket) : Socket :=
  if s.helloPayload stream = [] then { s with hello := update s.hello stream none }
  else if again then
    let m := makeMessage s.generation .hello stream 0 0 0 (s.helloPayload stream) true
    broadcastLocked cfg m { s with hello := update s.hello stream (some m) }
  else s

def needsBump (audio : Bytes) (s : Socket) : Bool :=
  s.helloPayload .video ≠ [] || (audio ≠ s.helloPayload .audio && s.helloPayload .audio ≠ [])

def applyStreamsLocked (video audio : Bytes) (s : Socket) : Socket :=
  let videoChanged := decide (video ≠ s.helloPayload .video)
  let audioChanged := decide (audio ≠ s.helloPayload .audio)
  if !videoChanged && !audioChanged then s
  else
    let bump := needsBump audio s
    let s : Socket :=
      if bump then
        { s with generation := s.generation + 1, sequence := fun _ ↦ 0, keyframe := none }
      else s
    let s := { s with
      helloPayload := update (update s.helloPayload .video video) .audio audio }
    announce cfg .video (bump || videoChanged) (announce cfg .audio (bump || audioChanged) s)

/-- `packet` is the AVPacket's data, empty for a null packet or one without data.
`cacheClone` and `clone` are the outcomes of the two av_packet_clone calls. -/
def sendMedia (packet : Bytes) (stream : StreamId) (keyframe : Bool) (ptsUs : Int64)
    (cacheClone clone : Bool) (s : Socket) : Socket :=
  if packet = [] then s
  else if stream ≠ .video ∧ stream ≠ .audio then s
  else if s.helloPayload stream = [] then s
  else
    let videoKeyframe := keyframe && stream = .video
    let sequence := s.sequence stream
    let s := { s with sequence := update s.sequence stream (sequence + 1) }
    let flags := if videoKeyframe then kFlagKeyframe else 0
    let message (type : MessageType) :=
      makeMessage s.generation type stream flags sequence ptsUs packet false
    let s : Socket :=
      if videoKeyframe && cacheClone then { s with keyframe := some (message .keyframe) } else s
    if s.connections ≠ [] ∧ clone then broadcastLocked cfg (message .media) s else s

def sendMonitorEvent (payload : Bytes) (s : Socket) : Socket :=
  broadcastLocked cfg (makeMessage s.generation .event .monitor 0 s.eventSequence 0 payload true)
    { s with eventSequence := s.eventSequence + 1 }

/-- `credentials` is the uid SO_PEERCRED reports, none when the call fails. -/
def checkPeer (euid : ℕ) (credentials : Option ℕ) : Bool :=
  match credentials with
  | none => cfg.allowedUids = []
  | some uid => cfg.allowedUids = [] || uid = euid || uid ∈ cfg.allowedUids

def enqueueOption (m : Option Message) (c : Connection) : Connection :=
  match m with
  | none => c
  | some m => enqueue cfg m c

def primedSnapshot (s : Socket) : Option Message :=
  if s.snapshotPayload = [] then none
  else some (makeMessage s.generation .event .monitor 0 s.eventSequence 0 s.snapshotPayload true)

/-- What AcceptClient primes a new consumer with. -/
def primed (now : ℕ) (s : Socket) : Connection :=
  Connection.init now |> enqueueOption cfg (s.hello .audio) |> enqueueOption cfg (s.hello .video)
    |> enqueueOption cfg (primedSnapshot s) |> enqueueOption cfg s.keyframe

def acceptClient (euid : ℕ) (credentials : Option ℕ) (now : ℕ) (s : Socket) : Socket :=
  if checkPeer cfg euid credentials = false then s
  else if cfg.maxClients ≤ s.connections.length then s
  else { s with connections := s.connections ++ [primed cfg now s] }

def sendStatsLocked (generation : UInt32) (now : ℕ) (c : Connection) : Connection :=
  if now - c.client.lastStats < cfg.statsInterval then c
  else
    let stats := makeMessage generation .stats .video 0 0 0
      (buildStats (UInt64.ofNat c.client.sent) (UInt64.ofNat c.client.dropped)) false
    enqueue cfg stats { c with client := { c.client with lastStats := now } }

inductive Op
  | setStreams (video : Option CodecParameters) (rate : Rational) (audio : Option CodecParameters)
  | setVideoParams (par : Option CodecParameters) (rate : Rational)
  | setAudioParams (par : Option CodecParameters)
  | clearVideoParams
  | clearAudioParams
  | sendMedia (packet : Bytes) (stream : StreamId) (keyframe : Bool) (ptsUs : Int64)
      (cacheClone clone : Bool)
  | sendMonitorEvent (payload : Bytes)
  | setSnapshotEvent (payload : Bytes)
  | invalidateKeyframe
  | acceptClient (euid : ℕ) (credentials : Option ℕ) (now : ℕ)
  | peekFront (client : ℕ)
  | sendMsg (client : ℕ) (result : SendResult)
  | finishWrite (client : ℕ)
  | sendStats (client now : ℕ)
  | removeClient (client : ℕ)
  | sendBye

def onConnection (i : ℕ) (f : Connection → Option Connection) (s : Socket) : Option Socket := do
  let c ← s.connections[i]?
  let c' ← f c
  return { s with connections := s.connections.set i c' }

/-- Run erases a client whose peer is gone, whose drain failed or which stalled,
never one it is writing to. -/
def removeClient (i : ℕ) (s : Socket) : Option Socket := do
  let c ← s.connections[i]?
  if c.drain = .idle ∨ c.drain = .failed then
    return { s with connections := s.connections.eraseIdx i }
  else none

variable (codecName : UInt32 → Bytes)

/-- One locked section of a producer or of the listener, or one sendmsg. -/
def step (s : Socket) : Op → Option Socket
  | .setStreams video rate audio => some (applyStreamsLocked cfg
      (helloPayload codecName video rate) (helloPayload codecName audio ⟨0, 0⟩) s)
  | .setVideoParams par rate => some (applyStreamsLocked cfg
      (helloPayload codecName par rate) (s.helloPayload .audio) s)
  | .setAudioParams par => some (applyStreamsLocked cfg
      (s.helloPayload .video) (helloPayload codecName par ⟨0, 0⟩) s)
  | .clearVideoParams => some (applyStreamsLocked cfg
      (helloPayload codecName none ⟨0, 0⟩) (s.helloPayload .audio) s)
  | .clearAudioParams => some (applyStreamsLocked cfg
      (s.helloPayload .video) (helloPayload codecName none ⟨0, 0⟩) s)
  | .sendMedia packet stream keyframe ptsUs cacheClone clone =>
    some (sendMedia cfg packet stream keyframe ptsUs cacheClone clone s)
  | .sendMonitorEvent payload => some (sendMonitorEvent cfg payload s)
  | .setSnapshotEvent payload => some { s with snapshotPayload := payload }
  | .invalidateKeyframe => some { s with keyframe := none }
  | .acceptClient euid credentials now => some (acceptClient cfg euid credentials now s)
  | .peekFront i => onConnection i peekFront s
  | .sendMsg i result => onConnection i (sendMsg result) s
  | .finishWrite i => onConnection i finishWrite s
  | .sendStats i now => onConnection i (fun c ↦ some (sendStatsLocked cfg s.generation now c)) s
  | .removeClient i => removeClient i s
  | .sendBye =>
    some (broadcastLocked cfg (makeMessage s.generation .bye .video 0 0 0 [] true) s)

end ZoneMinder.StreamSocket
