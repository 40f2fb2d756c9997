import ZoneMinder.EventStream.Playback
import ZoneMinder.Lib.Run

namespace ZoneMinder.EventStream

open Lib

variable {s : EventStream} {world : World} {checked : Checked} {msg : CmdMsg} {now : ℤ}
  {newEventId : ℕ} {prev queried : Bool}

theorem processCommand_setEvent (h : msg.command = .setEvent) :
    s.processCommand msg now = s.setEvent (decodeSetEvent msg.msgData) now := by
  rw [processCommand, if_neg (fun hne ↦ hne.2 h), obey, h]

theorem loadEventData_some {eventData : EventData}
    (h : loadEventData world newEventId = some eventData) :
    eventData.eventId = newEventId ∧ ∃ event ∈ world.events, event.eventId = newEventId := by
  obtain ⟨event, hfind, hrest⟩ := Option.bind_eq_some_iff.mp h
  obtain ⟨loaded, -, heq⟩ := Option.bind_eq_some_iff.mp hrest
  have hid := List.find?_some hfind
  refine ⟨?_, event, List.mem_of_find?_eq_some hfind, beq_iff_eq.mp hid⟩
  rw [← Option.some.inj heq]

/-- What a check leaves: the UI's hints stay, and a guided stream leaves its event for the one
that the hint for it names. -/
structure Checks (world : World) (s : EventStream) (checked : Checked) : Prop where
  uiHint : ∀ prev, checked.stream.uiHint prev = s.uiHint prev
  uiManaged : checked.stream.uiManaged = s.uiManaged
  playing : checked.stream.eventData.eventId = s.eventData.eventId ∨
    ∃ event ∈ world.events, event.eventId = checked.stream.eventData.eventId
  unguided : checked.queried = true → s.uiManaged = false
  guided : checked.loaded = true ∨ checked.stream.eventData.eventId ≠ s.eventData.eventId →
    s.uiManaged = true → ∃ prev, s.course = .leave prev ∧
      hintIsFor (s.uiHint prev) s.eventData.eventId = true ∧
      (s.uiHint prev).eventId = checked.stream.eventData.eventId

theorem checks_of_guidance (hguidance : checked.stream.guidance = s.guidance)
    (hloaded : checked.loaded = false) (hqueried : checked.queried = true → s.uiManaged = false) :
    Checks world s checked := by
  have hplaying : checked.stream.eventData.eventId = s.eventData.eventId :=
    congrArg Guidance.playing hguidance
  constructor
  · intro prev
    exact congrArg (Guidance.uiHint · prev) hguidance
  · exact congrArg Guidance.uiManaged hguidance
  · exact .inl hplaying
  · exact hqueried
  · rintro (h | h)
    · rw [hloaded] at h
      contradiction
    · exact absurd hplaying h

theorem checks_reload (h : s.reload world = some checked) : Checks world s checked := by
  obtain ⟨eventData, hload, hrest⟩ := Option.bind_eq_some_iff.mp h
  have hid := (loadEventData_some hload).1
  dsimp only at hrest
  split at hrest
  · obtain rfl := Option.some.inj hrest
    exact checks_of_guidance (by rw [guidance, guidance, hid]) rfl nofun
  · obtain rfl := Option.some.inj hrest
    exact checks_of_guidance (by rw [guidance, guidance, hid]) rfl nofun

theorem checks_change (h : s.change world prev newEventId queried = some checked)
    (hcourse : s.course = .leave prev) (hqueried : queried = true → s.uiManaged = false)
    (hguided : newEventId ≠ 0 → s.uiManaged = true →
      hintIsFor (s.uiHint prev) s.eventData.eventId = true ∧ (s.uiHint prev).eventId = newEventId) :
    Checks world s checked := by
  rw [change] at h
  dsimp only at h
  split at h
  · next hne =>
    obtain ⟨eventData, hload, hrest⟩ := Option.bind_eq_some_iff.mp h
    obtain ⟨hid, hevent⟩ := loadEventData_some hload
    obtain rfl := Option.some.inj hrest
    constructor
    · exact fun _ ↦ rfl
    · rfl
    · right
      rwa [← hid] at hevent
    · exact hqueried
    · intro _ hmanaged
      obtain ⟨hfor, htarget⟩ := hguided hne hmanaged
      exact ⟨prev, hcourse, hfor, htarget.trans hid.symm⟩
  · obtain rfl := Option.some.inj h
    exact checks_of_guidance rfl rfl hqueried

theorem hintIsFor_of_choice {hint : EventHint} {currentEventId : ℕ} {uiManaged : Bool} {waited : ℤ}
    (h : chooseNeighbour hint currentEventId uiManaged waited = .hint) :
    hintIsFor hint currentEventId = true := by
  rw [chooseNeighbour] at h
  split at h
  · assumption
  split at h
  · contradiction
  split at h
  · contradiction
  · contradiction

theorem unguided_of_choice {hint : EventHint} {currentEventId : ℕ} {uiManaged : Bool} {waited : ℤ}
    (h : chooseNeighbour hint currentEventId uiManaged waited = .sameMonitor) :
    uiManaged = false := by
  rw [chooseNeighbour] at h
  split at h
  · split at h
    · contradiction
    · contradiction
  split at h
  · next hmanaged => exact (Bool.not_eq_true' _).mp hmanaged
  split at h
  · contradiction
  · contradiction

theorem checks_leave (h : s.leave world prev = some checked) (hcourse : s.course = .leave prev) :
    Checks world s checked := by
  rw [leave] at h
  split at h
  · dsimp only at h
    split at h
    · split at h
      · obtain rfl := Option.some.inj h
        exact checks_of_guidance rfl rfl nofun
      · obtain rfl := Option.some.inj h
        exact checks_of_guidance rfl rfl nofun
    · next hchoice =>
      refine checks_change h hcourse nofun ?_
      intro hne _
      refine ⟨hintIsFor_of_choice hchoice, ?_⟩
      split
      · rfl
      · next hmissing =>
        rw [if_neg hmissing] at hne
        contradiction
    · exact checks_change h hcourse nofun fun hne ↦ absurd rfl hne
    · exact checks_change h hcourse nofun fun hne ↦ absurd rfl hne
    · next hchoice =>
      have hunguided := unguided_of_choice hchoice
      refine checks_change h hcourse (fun _ ↦ hunguided) ?_
      intro _ hmanaged
      rw [hunguided] at hmanaged
      contradiction
  · obtain rfl := Option.some.inj h
    exact checks_of_guidance rfl rfl nofun

theorem checkEventLoaded_checks (h : s.checkEventLoaded world = some checked) :
    Checks world s checked := by
  rw [checkEventLoaded] at h
  split at h
  · obtain rfl := Option.some.inj h
    exact checks_of_guidance rfl rfl nofun
  · exact checks_reload h
  · next prev hcourse => exact checks_leave h hcourse

structure Received where
  playing : ℕ
  command : SetEventCommand
  deriving DecidableEq

def Received.accepted (r : Received) : Bool := hintIsFor r.command.hint r.playing

structure Session where
  stream : EventStream
  received : List Received := []

/-- One locked section of the command thread or of the streaming loop. -/
inductive Op
  | command (msg : CmdMsg) (now : ℤ)
  | advance (tick : Tick)
  | check (world : World)

def Session.step (s : Session) : Op → Option Session
  | .command msg now => some {
      stream := s.stream.processCommand msg now
      received :=
        if msg.command = .setEvent then
          ⟨s.stream.eventData.eventId, decodeSetEvent msg.msgData⟩ :: s.received
        else s.received }
  | .advance tick => some { s with stream := s.stream.advance tick }
  | .check world => do
    let checked ← s.stream.checkEventLoaded world
    return { s with stream := checked.stream }

/-- The ids of the database fit the bytes that a hint has for its source. -/
def EventIds (world : World) : Prop := ∀ event ∈ world.events, event.eventId < 2 ^ 48

instance (world : World) : Decidable (EventIds world) :=
  inferInstanceAs (Decidable (∀ event ∈ world.events, event.eventId < 2 ^ 48))

/-- What holds around every step. -/
def promise (_ : Session) : Op → Prop
  | .check world => EventIds world
  | _ => True

instance (s : Session) : (op : Op) → Decidable (promise s op)
  | .check world => inferInstanceAs (Decidable (EventIds world))
  | .command _ _ => inferInstanceAs (Decidable True)
  | .advance _ => inferInstanceAs (Decidable True)

structure Started (s : Session) : Prop where
  playing : s.stream.eventData.eventId < 2 ^ 48
  uiNextHint : s.stream.uiNextHint = {}
  uiPrevHint : s.stream.uiPrevHint = {}
  received : s.received = []

def latest (received : List Received) (prev : Bool) : Option Received :=
  received.find? fun r ↦ r.accepted && r.command.prev == prev

structure Guided (s : Session) : Prop where
  playing : s.stream.eventData.eventId < 2 ^ 48
  received : ∀ r ∈ s.received, r.playing < 2 ^ 48
  uiManaged : s.received ≠ [] → s.stream.uiManaged = true
  uiHint : ∀ prev, s.stream.uiHint prev = ((latest s.received prev).map (·.command.hint)).getD {}

namespace Guided

variable {s s' : Session} {op : Op} {ops : List Op}

theorem of_started (h : Started s) : Guided s := by
  obtain ⟨hplaying, hnext, hprev, hreceived⟩ := h
  constructor
  · exact hplaying
  · rw [hreceived]
    exact nofun
  · exact fun hne ↦ absurd hreceived hne
  · intro prev
    rw [hreceived]
    cases prev
    · exact hnext
    · exact hprev

theorem of_guidance (h : Guided s) {stream : EventStream}
    (hstream : stream.guidance = s.stream.guidance) : Guided { s with stream := stream } := by
  obtain ⟨hplaying, hreceived, hmanaged, hhint⟩ := h
  constructor
  · exact (congrArg Guidance.playing hstream).trans_lt hplaying
  · exact hreceived
  · intro hne
    exact (congrArg Guidance.uiManaged hstream).trans (hmanaged hne)
  · intro prev
    exact (congrArg (Guidance.uiHint · prev) hstream).trans (hhint prev)

theorem setEvent (h : Guided s) (command : SetEventCommand) (now : ℤ) :
    Guided ⟨s.stream.setEvent command now, ⟨s.stream.eventData.eventId, command⟩ :: s.received⟩ := by
  obtain ⟨hplaying, hreceived, -, hhint⟩ := h
  obtain ⟨hid, hmanaged⟩ := s.stream.setEvent_playing command now
  constructor
  · exact hid.trans_lt hplaying
  · intro r hr
    rcases List.mem_cons.mp hr with rfl | hr
    · exact hplaying
    · exact hreceived r hr
  · exact fun _ ↦ hmanaged
  · intro prev
    rw [setEvent_uiHint, latest, List.find?_cons, hhint prev]
    split
    · next htaken =>
      have hfound : (hintIsFor command.hint s.stream.eventData.eventId && command.prev == prev) =
          true := by rw [Bool.and_eq_true, beq_iff_eq]; exact htaken
      rw [Received.accepted, hfound]
      rfl
    · next hdropped =>
      have hpassed : (hintIsFor command.hint s.stream.eventData.eventId && command.prev == prev) =
          false := by
        rw [← Bool.not_eq_true, Bool.and_eq_true, beq_iff_eq]
        exact hdropped
      rw [Received.accepted, hpassed]
      rfl

theorem step (h : Guided s) (hp : promise s op) (ht : s.step op = some s') : Guided s' := by
  cases op with
  | command msg now =>
    obtain rfl := Option.some.inj ht
    by_cases hset : msg.command = .setEvent
    · rw [if_pos hset, processCommand_setEvent hset]
      exact h.setEvent _ _
    · rw [if_neg hset]
      exact h.of_guidance (processCommand_guidance _ hset)
  | advance tick =>
    obtain rfl := Option.some.inj ht
    exact h.of_guidance (advance_guidance _ tick)
  | check world =>
    obtain ⟨checked, hcheck, hrest⟩ := Option.bind_eq_some_iff.mp ht
    obtain rfl := Option.some.inj hrest
    have hchecks := checkEventLoaded_checks hcheck
    obtain ⟨hplaying, hreceived, hmanaged, hhint⟩ := h
    constructor
    · rcases hchecks.playing with hsame | ⟨event, hmem, hid⟩
      · exact hsame.trans_lt hplaying
      · rw [← hid]
        exact hp event hmem
    · exact hreceived
    · intro hne
      exact hchecks.uiManaged.trans (hmanaged hne)
    · intro prev
      exact (hchecks.uiHint prev).trans (hhint prev)

theorem of_run (h : Started s) (hrun : Run Session.step promise s ops s') : Guided s' :=
  hrun.invariant (fun _ _ _ hs hp ht ↦ step hs hp ht) (of_started h)

/-- A hint for the event that plays came in while it played, and none after it was taken. -/
theorem latest_of_hintIsFor (h : Guided s) {prev : Bool}
    (hfor : hintIsFor (s.stream.uiHint prev) s.stream.eventData.eventId = true) :
    ∃ newer r older, s.received = newer ++ r :: older ∧
      r.playing = s.stream.eventData.eventId ∧
      r.command = ⟨prev, (s.stream.uiHint prev).eventId, s.stream.eventData.eventId⟩ ∧
      ∀ r' ∈ newer, ¬(r'.accepted = true ∧ r'.command.prev = prev) := by
  obtain ⟨hplaying, hreceived, -, hhint⟩ := h
  rw [hhint prev] at hfor ⊢
  cases hlatest : latest s.received prev with
  | none =>
    rw [hlatest] at hfor
    contradiction
  | some r =>
    rw [hlatest] at hfor
    obtain ⟨hr, newer, older, hsplit, hnewer⟩ := List.find?_eq_some_iff_append.mp hlatest
    obtain ⟨haccepted, hprev⟩ := (Bool.and_eq_true _ _).mp hr
    have hmem : r ∈ s.received := by
      rw [hsplit]
      exact List.mem_append_right _ List.mem_cons_self
    have hsource : r.command.sourceEventId = s.stream.eventData.eventId % 2 ^ 48 :=
      (hintIsFor_iff.mp hfor).2
    have hsource' : r.command.sourceEventId = r.playing % 2 ^ 48 := (hintIsFor_iff.mp haccepted).2
    rw [Nat.mod_eq_of_lt hplaying] at hsource
    rw [Nat.mod_eq_of_lt (hreceived r hmem)] at hsource'
    refine ⟨newer, r, older, hsplit, hsource'.symm.trans hsource, ?_, ?_⟩
    · rw [← beq_iff_eq.mp hprev, ← hsource]
      rfl
    · intro r' hr' ⟨htaken, hdirection⟩
      have hnot := hnewer r' hr'
      rw [htaken, hdirection, beq_self_eq_true] at hnot
      contradiction

end Guided

/-- Once the UI has spoken, playback leaves an event only for what the latest hint taken for it
in that direction names. -/
theorem playback_guided {s s' : Session} {ops : List Op} (hstart : Started s)
    (hrun : Run Session.step promise s ops s') :
    (s'.received ≠ [] → ∀ (world : World) (checked : Checked),
      s'.stream.checkEventLoaded world = some checked →
      checked.queried = false ∧
      (checked.loaded = true ∨
          checked.stream.eventData.eventId ≠ s'.stream.eventData.eventId →
        ∃ prev newer r older, s'.stream.course = .leave prev ∧
          s'.received = newer ++ r :: older ∧
          r.playing = s'.stream.eventData.eventId ∧
          r.command = ⟨prev, checked.stream.eventData.eventId, s'.stream.eventData.eventId⟩ ∧
          ∀ r' ∈ newer, ¬(r'.accepted = true ∧ r'.command.prev = prev))) ∧
    ∀ (msg : CmdMsg) (now : ℤ), msg.command = .setEvent →
      (decodeSetEvent msg.msgData).sourceEventId ≠ s'.stream.eventData.eventId →
      (s'.stream.processCommand msg now).uiNextHint = s'.stream.uiNextHint ∧
      (s'.stream.processCommand msg now).uiPrevHint = s'.stream.uiPrevHint := by
  have hguided := Guided.of_run hstart hrun
  constructor
  · intro hreceived world checked hcheck
    have hchecks := checkEventLoaded_checks hcheck
    have hmanaged := hguided.uiManaged hreceived
    constructor
    · rw [← Bool.not_eq_true]
      intro hqueried
      have hunguided := hchecks.unguided hqueried
      rw [hmanaged] at hunguided
      contradiction
    · intro hleft
      obtain ⟨prev, hcourse, hfor, htarget⟩ := hchecks.guided hleft hmanaged
      obtain ⟨newer, r, older, hsplit, hplaying, hcommand, hnewer⟩ :=
        hguided.latest_of_hintIsFor hfor
      rw [htarget] at hcommand
      exact ⟨prev, newer, r, older, hcourse, hsplit, hplaying, hcommand, hnewer⟩
  · intro msg now hset hsource
    have hstale : hintIsFor (decodeSetEvent msg.msgData).hint s'.stream.eventData.eventId ≠ true := by
      intro hfor
      apply hsource
      rw [← Nat.mod_eq_of_lt hguided.playing]
      exact (hintIsFor_iff.mp hfor).2
    have hkept : ∀ prev, (s'.stream.processCommand msg now).uiHint prev = s'.stream.uiHint prev := by
      intro prev
      rw [processCommand_setEvent hset, setEvent_uiHint, if_neg (fun h ↦ hstale h.1)]
    exact ⟨hkept false, hkept true⟩

/-- Event 101 plays, the UI names event 102 as the next one, and the last frame passes. -/
theorem playback_guided_next :
    let start : Session :=
      { stream :=
          { mode := .all
            eventData := ⟨101, 1, 3000000000, 1000000, [⟨1, 2000000000, 0, 0, true⟩]⟩
            currFrameId := 1 } }
    let hint : CmdMsg := ⟨[22, 0, 0, 0, 0, 0, 0, 0, 0, 102, 0, 0, 0, 0, 0, 101], rfl⟩
    let stale : CmdMsg := ⟨[22, 0, 0, 0, 0, 0, 0, 0, 0, 105, 0, 0, 0, 0, 0, 100], rfl⟩
    let world : World :=
      ⟨7, [⟨102, 2, ⟨0, 5000000000, 6000000000, 0⟩, []⟩], ⟨fun q ↦ ⌊1000000 * q⌋, fun q ↦ ⌊q⌋⟩, []⟩
    ∃ (s' : Session) (checked : Checked),
      Run Session.step promise start [.command hint 5, .advance ⟨1, 0, 0, true, true⟩] s' ∧
      s'.stream.checkEventLoaded world = some checked ∧
      checked.stream.eventData.eventId = 102 ∧ checked.queried = false ∧
      (∃ prev newer r older, s'.stream.course = .leave prev ∧
        s'.received = newer ++ r :: older ∧ r.playing = 101 ∧ r.command = ⟨prev, 102, 101⟩ ∧
        ∀ r' ∈ newer, ¬(r'.accepted = true ∧ r'.command.prev = prev)) ∧
      (s'.stream.processCommand stale 6).uiNextHint = s'.stream.uiNextHint := by
  intro start hint stale world
  have hstart : Started start := ⟨by decide, rfl, rfl, rfl⟩
  obtain ⟨s', hrun, hq⟩ := Run.exists_of_any Session.step promise start
    [.command hint 5, .advance ⟨1, 0, 0, true, true⟩]
    (fun s' ↦ decide (s'.received ≠ [] ∧ s'.stream.eventData.eventId = 101) &&
      (s'.stream.checkEventLoaded world).any
        (fun checked ↦ checked.loaded && checked.stream.eventData.eventId == 102)) (by decide)
  obtain ⟨hreached, hloads⟩ := (Bool.and_eq_true _ _).mp hq
  obtain ⟨hreceived, hplaying⟩ := of_decide_eq_true hreached
  obtain ⟨checked, hcheck, hnext⟩ := (Option.any_eq_true _ _).mp hloads
  obtain ⟨hloaded, hid⟩ := (Bool.and_eq_true _ _).mp hnext
  obtain ⟨hguided, hstale⟩ := playback_guided hstart hrun
  obtain ⟨hqueried, hleft⟩ := hguided hreceived world checked hcheck
  have hkept := hstale stale 6 (by decide) (by rw [hplaying]; decide)
  rw [hplaying, beq_iff_eq.mp hid] at hleft
  exact ⟨s', checked, hrun, hcheck, beq_iff_eq.mp hid, hqueried, hleft (.inl hloaded), hkept.1⟩

end ZoneMinder.EventStream
