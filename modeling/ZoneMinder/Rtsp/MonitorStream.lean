import ZoneMinder.StreamSocket.Protocol
import Mathlib.Data.Option.Basic

namespace ZoneMinder.Rtsp

open Lib StreamSocket

inductive AVCodecID
  | none | h264 | hevc | av1 | aac | pcmAlaw | pcmMulaw
  | other (id : ℕ)
  deriving DecidableEq

/-- Decoded HELLO parameters. Zero stands for a field that was not on the wire. -/
structure HelloInfo where
  codecId : AVCodecID := .none
  codecName : Bytes := []
  extradata : Bytes := []
  width : UInt32 := 0
  height : UInt32 := 0
  fpsNum : UInt32 := 0
  fpsDen : UInt32 := 0
  sampleRate : UInt32 := 0
  channels : UInt32 := 0
  profile : UInt32 := 0
  level : UInt32 := 0
  deriving DecidableEq

inductive Action
  | none | adopt | rebuild
  deriving DecidableEq

/-- When one monitor's session must be rebuilt, and whose media it may be fed. -/
structure RtspSessionTracker where
  pendingVideo : HelloInfo := {}
  pendingAudio : HelloInfo := {}
  havePendingVideo : Bool := false
  havePendingAudio : Bool := false
  haveGeneration : Bool := false
  latestGeneration : UInt32 := 0
  builtVideo : HelloInfo := {}
  builtAudio : HelloInfo := {}
  builtWithAudio : Bool := false
  haveBuilt : Bool := false
  builtGeneration : UInt32 := 0
  confirmed : Bool := false
  buildFailed : Bool := false

namespace RtspSessionTracker

/-- The codec's name, the profile and the level are announced but not compared. -/
def helloEqual (a b : HelloInfo) : Bool :=
  a.codecId = b.codecId ∧ a.extradata = b.extradata ∧ a.width = b.width ∧ a.height = b.height ∧
    a.fpsNum = b.fpsNum ∧ a.fpsDen = b.fpsDen ∧ a.sampleRate = b.sampleRate ∧
    a.channels = b.channels

/-- A HELLO from a new generation starts a fresh parameter set. -/
def startGeneration (t : RtspSessionTracker) (generation : UInt32) : RtspSessionTracker :=
  if !t.haveGeneration || generation != t.latestGeneration then
    { t with
      latestGeneration := generation
      haveGeneration := true
      havePendingVideo := false
      havePendingAudio := false }
  else t

def onHello (t : RtspSessionTracker) (stream : StreamId) (info : HelloInfo)
    (generation : UInt32) : RtspSessionTracker :=
  let t := t.startGeneration generation
  match stream with
  | .video =>
    { t with pendingVideo := info, havePendingVideo := true, confirmed := false, buildFailed := false }
  | .audio =>
    { t with pendingAudio := info, havePendingAudio := true, confirmed := false, buildFailed := false }
  | .monitor => t

/-- The next producer announces everything again and may restart its generations.
A refused set stays refused until then. -/
def onDisconnect (t : RtspSessionTracker) : RtspSessionTracker :=
  { t with
    haveGeneration := false
    havePendingVideo := false
    havePendingAudio := false
    confirmed := false }

def pendingMatchesBuilt (t : RtspSessionTracker) : Bool :=
  helloEqual t.builtVideo t.pendingVideo && (t.havePendingAudio == t.builtWithAudio) &&
    (!t.havePendingAudio || helloEqual t.builtAudio t.pendingAudio)

def plan (t : RtspSessionTracker) (haveSession : Bool) : Action :=
  if !t.havePendingVideo then .none
  else if haveSession && t.haveBuilt && t.pendingMatchesBuilt then
    if t.confirmed then .none else .adopt
  else if t.buildFailed then .none else .rebuild

def markBuilt (t : RtspSessionTracker) : RtspSessionTracker :=
  { t with
    builtVideo := t.pendingVideo
    builtAudio := t.pendingAudio
    builtWithAudio := t.havePendingAudio
    haveBuilt := true }

/-- The outcome of the action `plan` asked for. -/
def confirm (t : RtspSessionTracker) (action : Action) (sessionOk : Bool) : RtspSessionTracker :=
  match action with
  | .none => t
  | .adopt | .rebuild =>
    if !sessionOk then { t with haveBuilt := false, confirmed := false, buildFailed := true }
    else
      let t := if action = .rebuild then t.markBuilt else t
      { t with builtGeneration := t.latestGeneration, confirmed := true }

/-- The session was torn down by the owner for its own reasons. -/
def sessionGone (t : RtspSessionTracker) : RtspSessionTracker :=
  { t with haveBuilt := false, confirmed := false }

def accepts (t : RtspSessionTracker) (generation : UInt32) : Bool :=
  t.confirmed && t.haveBuilt && generation == t.builtGeneration

@[simp] theorem helloEqual_refl (a : HelloInfo) : helloEqual a a := by simp [helloEqual]

theorem plan_eq_adopt {t : RtspSessionTracker} {haveSession : Bool} :
    t.plan haveSession = .adopt ↔ t.havePendingVideo ∧ haveSession ∧ t.haveBuilt ∧
      t.pendingMatchesBuilt ∧ t.confirmed = false := by
  unfold plan
  split_ifs <;> simp_all

theorem plan_eq_rebuild {t : RtspSessionTracker} {haveSession : Bool} :
    t.plan haveSession = .rebuild ↔ t.havePendingVideo ∧
      ¬(haveSession ∧ t.haveBuilt ∧ t.pendingMatchesBuilt) ∧ t.buildFailed = false := by
  unfold plan
  split_ifs <;> simp_all

theorem accepts_iff {t : RtspSessionTracker} {generation : UInt32} :
    t.accepts generation ↔ t.confirmed ∧ t.haveBuilt ∧ generation = t.builtGeneration := by
  simp [accepts, and_assoc]

end RtspSessionTracker

open RtspSessionTracker

structure AudioSource where
  codecId : AVCodecID
  frequency : UInt32
  channels : UInt32
  deriving DecidableEq

/-- A session with the parameters it was built from and the sources it serves. -/
structure MediaSession where
  video : HelloInfo
  audio : Option HelloInfo
  resolution : UInt32 × UInt32
  audioSource : Option AudioSource
  deriving DecidableEq

/-- One monitor's path from its stream socket to an RTSP session. -/
structure MonitorRtspStream where
  tracker : RtspSessionTracker := {}
  session : Option MediaSession := none

def videoSupported : AVCodecID → Bool
  | .h264 | .hevc | .av1 => true
  | _ => false

def setFrequency (frequency : UInt32) : UInt32 :=
  if frequency.toInt32 ≤ 0 then 44100 else frequency

def audioSource (audio : HelloInfo) : Option AudioSource :=
  match audio.codecId with
  | .aac => some ⟨.aac, setFrequency audio.sampleRate, audio.channels⟩
  | .pcmAlaw | .pcmMulaw =>
    -- G.711 is always 8 kHz; an omitted rate must not fall back to the one of AAC
    some ⟨audio.codecId,
      setFrequency (if audio.sampleRate.toInt32 ≤ 0 then 8000 else audio.sampleRate),
      audio.channels⟩
  | _ => none

/-- The session for one parameter set; a size that was not announced is the monitor's. -/
def mediaSession (monitor : UInt32 × UInt32) (video : HelloInfo) (audio : Option HelloInfo) :
    MediaSession where
  video := video
  audio := audio
  resolution := (if video.width = 0 then monitor.1 else video.width,
    if video.height = 0 then monitor.2 else video.height)
  audioSource := audio.bind Rtsp.audioSource

/-- What the reader thread and the main loop do to one stream, each under its mutex.
An update says whether the server could create a session, should the pass need one. -/
inductive Op
  | hello (stream : StreamId) (info : HelloInfo) (generation : UInt32)
  | disconnect
  | update (created : Bool)

namespace MonitorRtspStream

def teardownLocked (s : MonitorRtspStream) : MonitorRtspStream :=
  { tracker := s.tracker.sessionGone, session := none }

def buildLocked (monitor : UInt32 × UInt32) (created : Bool) (s : MonitorRtspStream)
    (buildAudio : Bool) : MonitorRtspStream :=
  if !created then s
  else if !videoSupported s.tracker.pendingVideo.codecId then s
  else
    { s with
      session := some (mediaSession monitor s.tracker.pendingVideo
        (if buildAudio then some s.tracker.pendingAudio else none)) }

def updateSession (monitor : UInt32 × UInt32) (created : Bool) (s : MonitorRtspStream)
    (action : Action) : MonitorRtspStream :=
  if action = .rebuild then
    (s.teardownLocked).buildLocked monitor created s.tracker.havePendingAudio
  else s

/-- Bring the session in line with the latest complete HELLO set. -/
def update (monitor : UInt32 × UInt32) (created : Bool) (s : MonitorRtspStream) :
    MonitorRtspStream :=
  let action := s.tracker.plan s.session.isSome
  let s := s.updateSession monitor created action
  { s with tracker := s.tracker.confirm action s.session.isSome }

def step (monitor : UInt32 × UInt32) (s : MonitorRtspStream) : Op → MonitorRtspStream
  | .hello stream info generation =>
    { s with tracker := s.tracker.onHello stream info generation }
  | .disconnect => { s with tracker := s.tracker.onDisconnect }
  | .update created => s.update monitor created

def run (monitor : UInt32 × UInt32) (ops : List Op) : MonitorRtspStream :=
  ops.foldl (step monitor) {}

variable {monitor : UInt32 × UInt32} {s : MonitorRtspStream}

@[simp] theorem run_concat (ops : List Op) (op : Op) :
    run monitor (ops ++ [op]) = (run monitor ops).step monitor op := by
  simp [run]

/-- Everything a pass can do: nothing, keep the session, fail to build one, or build it. -/
theorem update_cases (monitor : UInt32 × UInt32) (created : Bool) (s : MonitorRtspStream) :
    (s.tracker.plan s.session.isSome = .none ∧ s.update monitor created = s) ∨
    (s.tracker.plan s.session.isSome = .adopt ∧
      s.update monitor created =
        { s with
          tracker := { s.tracker with
            builtGeneration := s.tracker.latestGeneration
            confirmed := true } }) ∨
    (s.tracker.plan s.session.isSome = .rebuild ∧
      s.update monitor created =
        ⟨{ s.tracker with haveBuilt := false, confirmed := false, buildFailed := true }, none⟩) ∨
    (s.tracker.plan s.session.isSome = .rebuild ∧
      s.update monitor created =
        ⟨{ s.tracker.markBuilt with
            builtGeneration := s.tracker.latestGeneration
            confirmed := true },
          some (mediaSession monitor s.tracker.pendingVideo
            (if s.tracker.havePendingAudio then some s.tracker.pendingAudio else none))⟩) := by
  cases hp : s.tracker.plan s.session.isSome with
  | none =>
    left
    simp [update, updateSession, hp, confirm]
  | adopt =>
    right; left
    have hs : s.session.isSome := (plan_eq_adopt.mp hp).2.1
    refine ⟨rfl, ?_⟩
    unfold update
    rw [hp]
    simp [updateSession, confirm, hs]
  | rebuild =>
    right; right
    by_cases hb : created ∧ videoSupported s.tracker.pendingVideo.codecId
    · right
      simp [update, updateSession, hp, confirm, buildLocked, teardownLocked, sessionGone, hb,
        markBuilt]
    · left
      have hn : (s.teardownLocked).buildLocked monitor created s.tracker.havePendingAudio =
          s.teardownLocked := by
        unfold buildLocked teardownLocked
        split_ifs <;> simp_all [sessionGone]
      simp only [update, updateSession, hp, if_true, hn, true_and]
      simp [confirm, teardownLocked, sessionGone]

/-- A pass leaves nothing to do. -/
theorem plan_update (monitor : UInt32 × UInt32) (created : Bool) (s : MonitorRtspStream) :
    (s.update monitor created).tracker.plan (s.update monitor created).session.isSome = .none := by
  rcases update_cases monitor created s with ⟨hp, he⟩ | ⟨hp, he⟩ | ⟨hp, he⟩ | ⟨hp, he⟩ <;> rw [he]
  · exact hp
  · obtain ⟨hv, hs, hb, hm, -⟩ := plan_eq_adopt.mp hp
    simp only [pendingMatchesBuilt] at hm
    simp [plan, pendingMatchesBuilt, hv, hs, hb, hm]
  · simp [plan]
  · simp [plan, markBuilt, pendingMatchesBuilt]

end MonitorRtspStream

end ZoneMinder.Rtsp
