import ZoneMinder.EventStream.Requests

namespace ZoneMinder.EventStream

open Lib

variable {s start : EventStream} {l l' : Loop} {msg : CmdMsg} {now : ℤ} {world : World}
  {checked : Checked} {prev queried : Bool} {event newEventId : ℕ} {op : Op} {ops : List Op}

/-- A row of Events as loadEventData selects it. The times are Unix times in seconds. -/
structure StoredEvent where
  eventId : ℕ
  monitorId : ℕ
  frames : Option ℤ
  startDateTime : ℤ
  endDateTime : Option ℤ
  length : Option ℚ
  rows : List Row

def StoredEvent.load (stored : StoredEvent) (arith : Arith) (clock : ℤ) : EventRow :=
  let startTime := 1000000000 * stored.startDateTime
  let endTime :=
    match stored.endDateTime with
    | some time => 1000000000 * time
    | none => clock
  { frameCount := stored.frames.getD 0
    startTime := startTime
    endTime := endTime
    duration :=
      match stored.length with
      | some length => arith.micros length
      | none => (endTime - startTime).tdiv 1000 }

def StoredEvent.record (stored : StoredEvent) (arith : Arith) (clock : ℤ) : EventRecord :=
  ⟨stored.eventId, stored.monitorId, stored.load arith clock, stored.rows⟩

/-- What a check sees is a database in which the event is still being recorded. The clocks are
past their epochs. -/
def StillRecording (event : ℕ) (world : World) : Prop :=
  world.now ≠ 0 ∧ ∃ (stored : List StoredEvent) (clock : ℤ), clock ≠ 0 ∧
    world.events = stored.map (·.record world.arith clock) ∧
      ∀ row ∈ stored, row.eventId = event → row.endDateTime = none

def Recording (event : ℕ) (_ : Loop) : Op → Prop
  | .check world => StillRecording event world
  | _ => True

/-- A stream that plays has run past the frames that are loaded, and waits for no hint. -/
structure RunsPast (s : EventStream) : Prop where
  past : s.currFrameId > s.numFrames
  waiting : s.waitingForHint = false
  paused : s.paused = false

def Kept (s : EventStream) (world : World) : Prop :=
  ∃ checked, s.checkEventLoaded world = some checked ∧
    loadEventData world s.eventData.eventId = some checked.stream.eventData ∧
      checked.stream.paused = false ∧ checked.stream.waitingForHint = false

/-- The check goes to the neighbour, and the UI has named the event itself as that. -/
def NamedAgain (s : EventStream) : Prop :=
  (s.forceEventChange = true ∨ s.mode ≠ .single ∧ s.mode ≠ .none) ∧
    hintIsFor (s.uiHint false) s.eventData.eventId = true ∧
      (s.uiHint false).eventId = s.eventData.eventId ∧ s.eventData.eventId ≠ 0

theorem obey_eventData : (s.obey msg now).eventData = s.eventData := by
  have hmotion : IgnoresMotion eventData := fun _ _ _ _ _ _ _ _ ↦ rfl
  have hhints : IgnoresHints eventData := fun _ _ _ _ _ _ _ _ ↦ rfl
  rw [hmotion.obey, steer]
  split
  case h_8 => exact hhints.setEvent s _ now
  all_goals rfl

theorem processCommand_eventData : (s.processCommand msg now).eventData = s.eventData := by
  rw [processCommand]
  split
  · exact obey_eventData
  · exact obey_eventData

theorem change_eventData (h : s.change world prev newEventId queried = some checked) :
    checked.stream.eventData = s.eventData ∨
      loadEventData world newEventId = some checked.stream.eventData := by
  rw [change] at h
  dsimp only at h
  split at h
  · obtain ⟨eventData, hload, hrest⟩ := Option.bind_eq_some_iff.mp h
    obtain rfl := Option.some.inj hrest
    exact .inr hload
  · obtain rfl := Option.some.inj h
    exact .inl rfl

/-- What plays after a check is what played before it, or what the check has loaded. -/
theorem checkEventLoaded_eventData (h : s.checkEventLoaded world = some checked) :
    checked.stream.eventData = s.eventData ∨
      ∃ eventId, loadEventData world eventId = some checked.stream.eventData := by
  rw [checkEventLoaded] at h
  split at h
  · obtain rfl := Option.some.inj h
    exact .inl rfl
  · obtain ⟨eventData, hload, hrest⟩ := Option.bind_eq_some_iff.mp h
    dsimp only at hrest
    split at hrest
    · obtain rfl := Option.some.inj hrest
      exact .inr ⟨_, hload⟩
    · obtain rfl := Option.some.inj hrest
      exact .inr ⟨_, hload⟩
  · rw [leave] at h
    split at h
    · dsimp only at h
      split at h
      · split at h
        · obtain rfl := Option.some.inj h
          exact .inl rfl
        · obtain rfl := Option.some.inj h
          exact .inl rfl
      all_goals exact (change_eventData h).imp_right fun hload ↦ ⟨_, hload⟩
    · obtain rfl := Option.some.inj h
      exact .inl rfl

/-- An event in process gets the clock for its end. -/
theorem loadEventData_endTime {eventData : EventData} (h : StillRecording event world)
    (hload : loadEventData world event = some eventData) : eventData.endTime ≠ 0 := by
  obtain ⟨-, stored, clock, hclock, hevents, hnull⟩ := h
  obtain ⟨record, hfind, hrest⟩ := Option.bind_eq_some_iff.mp hload
  obtain ⟨loaded, -, heq⟩ := Option.bind_eq_some_iff.mp hrest
  have hid : record.eventId = event := by simpa using List.find?_some hfind
  have hmem := List.mem_of_find?_eq_some hfind
  rw [hevents] at hmem
  obtain ⟨row, hrow, rfl⟩ := List.mem_map.mp hmem
  rw [← Option.some.inj heq]
  simp only [StoredEvent.record, StoredEvent.load, hnull row hrow hid]
  exact hclock

/-- The event that plays has an end, if only the time of its load. -/
def Ended (event : ℕ) (s : EventStream) : Prop :=
  s.eventData.eventId = event → s.eventData.endTime ≠ 0

theorem Ended.step (h : Ended event l.stream) (hop : Recording event l op)
    (hstep : l.step op = some l') : Ended event l'.stream := by
  cases op with
  | command msg now =>
    obtain rfl := Option.some.inj hstep
    rw [Ended, processCommand_eventData]
    exact h
  | advance tick =>
    rw [Loop.step] at hstep
    split at hstep
    · obtain rfl := Option.some.inj hstep
      rw [Ended, advance_eventData]
      exact h
    · contradiction
  | check world =>
    simp only [Loop.step] at hstep
    split_ifs at hstep
    obtain ⟨checked, hcheck, hrest⟩ := Option.bind_eq_some_iff.mp hstep
    obtain rfl := Option.some.inj hrest
    intro hid
    rcases checkEventLoaded_eventData hcheck with hsame | ⟨eventId, hload⟩
    · rw [hsame] at hid ⊢
      exact h hid
    · have hloaded := (loadEventData_some hload).1
      rw [hid] at hloaded
      rw [← hloaded] at hload
      exact loadEventData_endTime hop hload

theorem not_keeps_of_change_zero : ¬∃ checked, s.change world prev 0 queried = some checked ∧
    loadEventData world s.eventData.eventId = some checked.stream.eventData ∧
      checked.stream.paused = false ∧ checked.stream.waitingForHint = false := by
  rintro ⟨checked, hchecked, -, hpaused, -⟩
  rw [change, if_neg (not_not_intro rfl)] at hchecked
  obtain rfl := Option.some.inj hchecked
  contradiction

theorem not_keeps_of_change (hnull : newEventId ≠ 0) (hne : newEventId ≠ s.eventData.eventId) :
    ¬∃ checked, s.change world prev newEventId queried = some checked ∧
      loadEventData world s.eventData.eventId = some checked.stream.eventData ∧
        checked.stream.paused = false ∧ checked.stream.waitingForHint = false := by
  rintro ⟨checked, hchecked, hload, -, -⟩
  rw [change] at hchecked
  dsimp only at hchecked
  rw [if_pos hnull] at hchecked
  obtain ⟨eventData, hother, hrest⟩ := Option.bind_eq_some_iff.mp hchecked
  obtain rfl := Option.some.inj hrest
  exact hne ((loadEventData_some hother).1.symm.trans (loadEventData_some hload).1)

theorem sameMonitorEvent_ne (h : s.sameMonitorEvent world prev ≠ 0) :
    s.sameMonitorEvent world prev ≠ s.eventData.eventId := by
  have hother : ∀ found : Option ℕ, (∀ eventId ∈ found, eventId ≠ s.eventData.eventId) →
      found.getD 0 ≠ 0 → found.getD 0 ≠ s.eventData.eventId := by
    intro found hall hne
    cases found with
    | none => exact absurd rfl hne
    | some eventId => exact hall eventId rfl
  refine hother _ ?_ h
  intro eventId hfound
  cases prev with
  | true =>
    have hlt := (List.mem_filter.mp (List.max?_mem hfound)).2
    exact (of_decide_eq_true hlt).ne
  | false =>
    have hlt := (List.mem_filter.mp (List.min?_mem hfound)).2
    exact (of_decide_eq_true hlt).ne'

/-- The branch for events in process is not taken: an end of zero is not what they have. -/
theorem kept_iff (hpast : RunsPast s) (hended : s.eventData.endTime ≠ 0) (hnow : world.now ≠ 0)
    (hload : (loadEventData world s.eventData.eventId).isSome = true) :
    Kept s world ↔ NamedAgain s := by
  have hframes : 0 ≤ s.numFrames := Int.natCast_nonneg _
  have hpos : ¬s.currFrameId ≤ 0 := by
    have hlt := hpast.past
    omega
  have hcourse : s.course = .leave false := by
    rw [course, if_neg (by simp [hpast.waiting]), if_neg hpos, if_pos hpast.past, if_neg hended]
  obtain ⟨eventData, hevent⟩ := Option.isSome_iff_exists.mp hload
  have hid := (loadEventData_some hevent).1
  unfold Kept NamedAgain
  rw [checkEventLoaded, hcourse]
  dsimp only
  rw [leave]
  by_cases hforced : s.forceEventChange = true ∨ s.mode ≠ .single ∧ s.mode ≠ .none
  · rw [if_pos hforced]
    dsimp only
    have hzero : s.waited world.now = 0 := by
      rw [waited, hpast.waiting]
      rfl
    rw [chooseNeighbour, hzero]
    by_cases hfor : hintIsFor (s.uiHint false) s.eventData.eventId = true
    · rw [if_pos hfor]
      by_cases hnull : (s.uiHint false).eventId = 0
      · rw [if_neg (not_not_intro hnull)]
        refine iff_of_false (not_keeps_of_change_zero) ?_
        rintro ⟨-, -, hsame, hne⟩
        exact hne (hsame ▸ hnull)
      · rw [if_pos hnull]
        dsimp only
        by_cases hsame : (s.uiHint false).eventId = s.eventData.eventId
        · have hexists : eventExists world (s.uiHint false).eventId = true := by
            obtain ⟨row, hrow, hrowId⟩ := (loadEventData_some hevent).2
            rw [eventExists, List.any_eq_true]
            exact ⟨row, hrow, by simp [hrowId, hsame]⟩
          refine iff_of_true ?_ ⟨hforced, hfor, hsame, hsame ▸ hnull⟩
          rw [if_pos hexists, change]
          dsimp only
          rw [if_pos hnull, hsame, hevent]
          exact ⟨_, rfl, rfl, hpast.paused, rfl⟩
        · refine iff_of_false ?_ fun h ↦ hsame h.2.2.1
          split
          · exact not_keeps_of_change hnull hsame
          · exact not_keeps_of_change_zero
    · rw [if_neg hfor]
      refine iff_of_false ?_ fun h ↦ hfor h.2.1
      cases hmanaged : s.uiManaged with
      | false =>
        rw [if_pos (Bool.not_false)]
        dsimp only
        by_cases hnone : s.sameMonitorEvent world false = 0
        · rw [hnone]
          exact not_keeps_of_change_zero
        · exact not_keeps_of_change hnone (sameMonitorEvent_ne hnone)
      | true =>
        rw [if_neg (by decide), if_pos (by decide)]
        simp only [hpast.waiting, Bool.false_eq_true, if_false]
        rintro ⟨checked, hchecked, -, -, hwaiting⟩
        obtain rfl := Option.some.inj hchecked
        simp [waitingForHint, hnow] at hwaiting
  · rw [if_neg hforced]
    refine iff_of_false ?_ fun h ↦ hforced h.1
    rintro ⟨checked, hchecked, -, hpaused, -⟩
    obtain rfl := Option.some.inj hchecked
    contradiction

/-- Over every run in whose checks the event is still being recorded. -/
theorem inProcess_kept_iff (hstart : Ended event start)
    (hrun : Run Loop.step (Recording event) ⟨start, .send, none⟩ ops l)
    (hplays : l.stream.eventData.eventId = event) (hpast : RunsPast l.stream)
    (hworld : StillRecording event world) (hload : (loadEventData world event).isSome = true) :
    Kept l.stream world ↔ NamedAgain l.stream := by
  have hended : Ended event l.stream :=
    hrun.invariant (fun _ _ _ hs hp ht ↦ Ended.step hs hp ht) hstart
  rw [← hplays] at hload
  exact kept_iff hpast (hended hplays) hworld.1 hload

def recorded : StoredEvent := ⟨101, 1, none, 2, none, none, [⟨1, 0⟩, ⟨2, 1 / 2⟩]⟩

def whileRecording : World :=
  ⟨7, [recorded].map (·.record ⟨fun q ↦ ⌊1000000 * q⌋, fun q ↦ ⌊q⌋⟩ 3000000000),
    ⟨fun q ↦ ⌊1000000 * q⌋, fun q ↦ ⌊q⌋⟩, []⟩

theorem whileRecording_stillRecording : StillRecording 101 whileRecording := by
  refine ⟨by decide, [recorded], 3000000000, by decide, rfl, ?_⟩
  intro row hrow _
  rw [List.mem_singleton.mp hrow]
  rfl

def follows (uiNextHint : EventHint) : EventStream :=
  { twoFrames .all 3000000000 with uiNextHint := uiNextHint }

theorem follows_runsPast (uiNextHint : EventHint) : ∃ l,
    Run Loop.step (Recording 101) ⟨follows uiNextHint, .send, none⟩
      [.advance ⟨1, 0, 0, true, true⟩, .check whileRecording, .advance ⟨1, 0, 0, true, true⟩] l ∧
      l.request = none ∧ l.next = .check ∧ l.stream.eventData.eventId = 101 ∧ RunsPast l.stream ∧
        l.stream.uiNextHint = uiNextHint ∧ l.stream.mode = .all ∧
          l.stream.eventData.endTime ≠ 0 := by
  have hpast : (2 : ℤ) < 3 := by decide
  have hended : (3000000000 : ℤ) ≠ 0 := by decide
  exact ⟨_, .cons trivial rfl (.cons whileRecording_stillRecording rfl
    (.cons trivial rfl (.nil _))), rfl, rfl, rfl, ⟨hpast, rfl, rfl⟩, rfl, rfl, hended⟩

theorem whileRecording_loads : (loadEventData whileRecording 101).isSome = true := by
  decide +kernel

/-- The stream pauses, with the event still being recorded. -/
theorem not_inProcess_kept : ∃ ops l, Run Loop.step (Recording 101) ⟨follows {}, .send, none⟩ ops l ∧
    l.request = none ∧ l.next = .check ∧ l.stream.eventData.eventId = 101 ∧ RunsPast l.stream ∧
      (loadEventData whileRecording 101).isSome = true ∧ ¬Kept l.stream whileRecording := by
  obtain ⟨l, hrun, hrequest, hnext, hplays, hpast, hhint, -, hended⟩ := follows_runsPast {}
  refine ⟨_, l, hrun, hrequest, hnext, hplays, hpast, whileRecording_loads, ?_⟩
  rw [kept_iff hpast hended (by decide) (by rw [hplays]; exact whileRecording_loads)]
  rintro ⟨-, hfor, -, -⟩
  rw [uiHint, if_neg Bool.false_ne_true, hhint] at hfor
  contradiction

/-- With event 101 named as its own next event it goes on. -/
theorem inProcess_kept_named : ∃ l : Loop, RunsPast l.stream ∧ Kept l.stream whileRecording := by
  obtain ⟨l, hrun, -, -, hplays, hpast, hhint, hmode, -⟩ := follows_runsPast ⟨true, 101, 101⟩
  refine ⟨l, hpast, (inProcess_kept_iff (fun _ ↦ by decide) hrun hplays hpast
    whileRecording_stillRecording whileRecording_loads).mpr ⟨.inr ?_, ?_⟩⟩
  · rw [hmode]
    decide
  · rw [uiHint, if_neg Bool.false_ne_true, hhint, hplays]
    decide

end ZoneMinder.EventStream
