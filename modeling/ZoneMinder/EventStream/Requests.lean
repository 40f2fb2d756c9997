import ZoneMinder.EventStream.Guided

namespace ZoneMinder.EventStream

open Lib

section Loop

inductive Section
  | send | check
  /-- Behind the loop. -/
  | done
  deriving DecidableEq

/-- The loop of runStream, and the direction of the explicit request that is being served. -/
structure Loop where
  stream : EventStream
  next : Section := .send
  request : Option Bool := none
  deriving DecidableEq

variable (s : EventStream)

/-- The round goes back to the top of the loop: the stream is not yet at its event. -/
def resting (tick : Tick) : Bool :=
  !s.stopped && decide (tick.timeToEvent > 0) && s.mode = .all

def sends (tick : Tick) : Bool := ((s.due tick s.waitingForHint).sendFrames tick).2

def requested : MsgCommand → Option Bool
  | .prev => some (decide (s.replayRate ≥ 0))
  | .next => some (decide (s.replayRate < 0))
  | _ => none

/-- A request is served until a check is done with it, or until another command than QUERY and
SET_EVENT comes. -/
def Loop.step (l : Loop) : Op → Option Loop
  | .command msg now => some {
      stream := l.stream.processCommand msg now
      next := l.next
      request := if msg.command = .query ∨ msg.command = .setEvent then l.request
        else requested l.stream msg.command }
  | .advance tick =>
    if l.next = .send then some {
      stream := l.stream.advance tick
      next :=
        if resting l.stream tick then .send
        else if sends l.stream tick then .check
        else .done
      request := l.request }
    else none
  | .check world =>
    if l.next = .check then do
      let checked ← l.stream.checkEventLoaded world
      return {
        stream := checked.stream
        next := .send
        request := if checked.stream.waitingForHint then l.request else none }
    else none

/-- Playback has nothing to do with a request before the check: it rests, or it moves off the
event in the direction of the request. -/
def Stands (tick : Tick) : Prop :=
  s.stopped = true ∨ resting s tick = true ∨
  (if s.eventData.frames.isEmpty then if s.currFrameId ≤ 0 then s.step ≤ 0 else 0 ≤ s.step
    else s.mode ≠ .single ∧ (s.currFrameId ≤ 0 ↔ s.replayRate ≤ 0))

instance (tick : Tick) : Decidable (Stands s tick) := by
  unfold Stands
  infer_instance

/-- When a step does no harm to a request. The frames that a round moves by are at least one, and
the clock has left its epoch. -/
def Unhindered (l : Loop) : Op → Prop
  | .command msg _ => l.stream.forceEventChange = true →
      msg.command ∈ [.prev, .next, .query, .setEvent]
  | .advance tick => 1 ≤ tick.frameMod ∧
      (l.stream.forceEventChange = true → l.stream.waitingForHint = false → Stands l.stream tick)
  | .check world => world.now ≠ 0 ∧
      (l.stream.forceEventChange = true → l.stream.waitingForHint = false →
        l.stream.currFrameId > l.stream.numFrames → l.stream.eventData.endTime ≠ 0)

instance (l : Loop) : (op : Op) → Decidable (Unhindered l op)
  | .command msg _ => inferInstanceAs (Decidable (l.stream.forceEventChange = true →
      msg.command ∈ [.prev, .next, .query, .setEvent]))
  | .advance tick => inferInstanceAs (Decidable (1 ≤ tick.frameMod ∧
      (l.stream.forceEventChange = true → l.stream.waitingForHint = false →
        Stands l.stream tick)))
  | .check world => inferInstanceAs (Decidable (world.now ≠ 0 ∧
      (l.stream.forceEventChange = true → l.stream.waitingForHint = false →
        l.stream.currFrameId > l.stream.numFrames → l.stream.eventData.endTime ≠ 0)))

/-- What comes of leaving an event: its neighbour plays, or the wait for the hint begins or goes
on, or playback stops at the boundary. -/
def Leaves (world : World) (prev : Bool) (checked : Checked) : Prop :=
  checked.loaded = true ∧
    (hintIsFor (s.uiHint prev) s.eventData.eventId = true ∧
        checked.stream.eventData.eventId = (s.uiHint prev).eventId ∨
      s.uiManaged = false ∧
        checked.stream.eventData.eventId = s.sameMonitorEvent world prev) ∨
  checked.loaded = false ∧ checked.stream.eventData = s.eventData ∧
    (checked.stream.waitingForHint = true ∧ checked.stream.hintWaitPrev = prev ∧
        checked.stream.forceEventChange = true ∨
      checked.stream.paused = true ∧ checked.stream.currFrameId = s.boundaryFrame prev ∧
        checked.stream.forceEventChange = false)

def Off (prev : Bool) : Prop := if prev then s.currFrameId ≤ 0 else s.currFrameId > s.numFrames

end Loop

variable {s : EventStream} {l l' : Loop} {msg : CmdMsg} {now : ℤ} {tick : Tick} {world : World}
  {checked : Checked} {prev queried : Bool} {newEventId : ℕ} {op : Op} {ops : List Op}

theorem setEvent_forceEventChange (command : SetEventCommand) (now : ℤ) :
    (s.setEvent command now).forceEventChange = s.forceEventChange := by
  have hhints : IgnoresHints forceEventChange := fun _ _ _ _ _ _ _ _ ↦ rfl
  exact hhints.setEvent s command now

theorem obey_forceEventChange (hprev : msg.command ≠ .prev) (hnext : msg.command ≠ .next) :
    (s.obey msg now).forceEventChange = s.forceEventChange := by
  have hmotion : IgnoresMotion forceEventChange := fun _ _ _ _ _ _ _ _ ↦ rfl
  rw [hmotion.obey, steer]
  split
  case h_6 h => exact absurd h hprev
  case h_7 h => exact absurd h hnext
  case h_8 => exact setEvent_forceEventChange _ now
  all_goals rfl

theorem processCommand_forceEventChange (now : ℤ) (hprev : msg.command ≠ .prev)
    (hnext : msg.command ≠ .next) :
    (s.processCommand msg now).forceEventChange = s.forceEventChange := by
  rw [processCommand]
  split
  · exact obey_forceEventChange hprev hnext
  · exact obey_forceEventChange hprev hnext

/-- Where the stream has not stopped at the end of its event, a SET_EVENT changes the hints
alone. -/
theorem setEvent_of_endStop (h : s.endStop = false) (command : SetEventCommand) (now : ℤ) :
    ∃ uiPrevHint uiNextHint, s.setEvent command now =
      { s with uiManaged := true, uiPrevHint := uiPrevHint, uiNextHint := uiNextHint } := by
  have hresume (t : EventStream) (ht : t.endStop = false) : t.resume command now = t := by
    rw [resume, hintResumes, ht, Bool.false_and, Bool.false_and]
    rfl
  rw [setEvent]
  split
  · rw [setUiHint]
    split
    · exact ⟨_, _, hresume _ h⟩
    · exact ⟨_, _, hresume _ h⟩
  · exact ⟨_, _, rfl⟩

theorem advance_eq (s : EventStream) (tick : Tick) :
    ∃ step sendFrame sendTwice zmTerminate, s.advance tick =
      { s with
        step := step, sendFrame := sendFrame, sendTwice := sendTwice
        zmTerminate := zmTerminate, currFrameId := (s.advance tick).currFrameId } := by
  have hdue : ∃ step sendFrame, s.due tick s.waitingForHint =
      { s with step := step, sendFrame := sendFrame } := by
    rw [due]
    split_ifs
    · exact ⟨_, _, rfl⟩
    · exact ⟨_, _, rfl⟩
    · exact ⟨_, _, rfl⟩
    · exact ⟨_, _, rfl⟩
    · exact ⟨_, _, rfl⟩
  have hsent (t : EventStream) : ∃ currFrameId sendTwice, (t.sendFrames tick).1 =
      { t with currFrameId := currFrameId, sendTwice := sendTwice } := by
    simp only [sendFrames, clampFrame]
    split_ifs
    all_goals exact ⟨_, _, rfl⟩
  obtain ⟨step, sendFrame, hdue⟩ := hdue
  obtain ⟨currFrameId, sendTwice, hsent⟩ := hsent (s.due tick s.waitingForHint)
  rw [advance]
  dsimp only
  split_ifs
  · exact ⟨_, _, _, _, by rw [hdue]⟩
  · exact ⟨_, _, _, _, by rw [hdue]⟩
  · exact ⟨_, _, _, _, by rw [hsent, hdue]⟩
  · exact ⟨_, _, _, _, by rw [hsent, hdue]⟩

theorem due_mode (s : EventStream) (tick : Tick) (holding : Bool) : (s.due tick holding).stopped = s.stopped ∧
    (s.due tick holding).mode = s.mode ∧ (s.due tick holding).currFrameId = s.currFrameId := by
  rw [due]
  split_ifs
  all_goals exact ⟨rfl, rfl, rfl⟩

theorem advance_resting (h : resting s tick = true) :
    (s.advance tick).currFrameId = s.currFrameId := by
  obtain ⟨hstopped, hmode, hcurr⟩ := s.due_mode tick s.waitingForHint
  rw [resting, ← hstopped, ← hmode] at h
  rw [advance]
  dsimp only
  rw [if_pos h]
  split
  · exact hcurr
  · exact hcurr

theorem advance_stopped (h : s.stopped = true) : (s.advance tick).currFrameId = s.currFrameId := by
  have hdue : s.due tick s.waitingForHint = { s with sendFrame := false } := by
    rw [due]
    exact if_pos h
  simp [advance, hdue, h, sendFrames, nextFrame]

theorem advance_sends (hresting : resting s tick = false) (hsends : sends s tick = true) :
    (s.advance tick).currFrameId = ((s.due tick s.waitingForHint).sendFrames tick).1.nextFrame
      tick.frameMod s.waitingForHint := by
  obtain ⟨hstopped, hmode, -⟩ := s.due_mode tick s.waitingForHint
  rw [resting, ← hstopped, ← hmode] at hresting
  rw [sends] at hsends
  rw [advance]
  dsimp only
  rw [hresting, if_neg Bool.false_ne_true, hsends]
  rfl

theorem clampFrame_frame (s : EventStream) : s.clampFrame.eventData = s.eventData ∧
    (s.eventData.frames.isEmpty = true ∨
      1 ≤ s.clampFrame.currFrameId ∧ s.clampFrame.currFrameId ≤ s.numFrames) := by
  rw [clampFrame]
  split_ifs with hempty
  · exact ⟨rfl, .inl hempty⟩
  · have hlength : 0 < s.eventData.frames.length := by
      rw [List.length_pos_iff]
      simpa using hempty
    refine ⟨rfl, .inr ⟨le_max_left _ _, ?_⟩⟩
    change max 1 (min s.currFrameId s.eventData.frames.length) ≤ (s.eventData.frames.length : ℤ)
    omega

theorem clampFrame_eq (h : s.eventData.frames.isEmpty = true ∨
    1 ≤ s.currFrameId ∧ s.currFrameId ≤ s.numFrames) : s.clampFrame = s := by
  rw [clampFrame]
  split_ifs with hempty
  · rfl
  · obtain ⟨hlow, hhigh⟩ := h.resolve_left hempty
    rw [min_eq_left hhigh, max_eq_right hlow]

theorem sendFrames_clamps (tick : Tick) (h : s.sendFrame = true) :
    ∃ sendTwice, (s.sendFrames tick).1 = { s.clampFrame with sendTwice := sendTwice } := by
  have hagain (b : Bool) : ({ s.clampFrame with sendTwice := b } : EventStream).clampFrame =
      { s.clampFrame with sendTwice := b } := by
    obtain ⟨hdata, hframe⟩ := clampFrame_frame s
    apply clampFrame_eq
    change s.clampFrame.eventData.frames.isEmpty = true ∨
      1 ≤ s.clampFrame.currFrameId ∧ s.clampFrame.currFrameId ≤ s.clampFrame.eventData.frames.length
    rw [hdata]
    exact hframe
  rw [sendFrames, if_pos h]
  dsimp only
  split_ifs
  · exact ⟨_, rfl⟩
  · exact ⟨_, hagain false⟩
  · exact ⟨_, rfl⟩

theorem advance_playing (hstopped : s.stopped = false) (hpaused : s.paused = false)
    (hwaiting : s.waitingForHint = false) (hresting : resting s tick = false)
    (hsends : sends s tick = true) :
    (s.advance tick).currFrameId =
      if s.eventData.frames.isEmpty then s.currFrameId + s.step
      else
        let next := max 1 (min s.currFrameId s.numFrames) +
          if s.replayRate > 0 then tick.frameMod else -1 * tick.frameMod
        if s.mode = .single ∧ (next < 1 ∨ next > s.numFrames) then 1 else next := by
  have hdue : s.due tick s.waitingForHint = { s with sendFrame := true } := by
    simp [due, hstopped, hpaused, hwaiting]
  obtain ⟨sendTwice, hsent⟩ :=
    sendFrames_clamps (s := { s with sendFrame := true }) tick rfl
  rw [advance_sends hresting hsends, hdue, hsent, hwaiting]
  by_cases hempty : s.eventData.frames.isEmpty = true
  · simp [nextFrame, clampFrame, hempty, hpaused, hstopped]
  · have hlength : 0 < s.eventData.frames.length := by
      rw [List.length_pos_iff]
      simpa using hempty
    have hlow : 1 ≤ max 1 (min s.currFrameId s.numFrames) := le_max_left _ _
    have hhigh : max 1 (min s.currFrameId s.numFrames) ≤ s.numFrames := by
      rw [numFrames]
      omega
    have hclamp : ({ s with sendFrame := true } : EventStream).clampFrame =
        { s with sendFrame := true, currFrameId := max 1 (min s.currFrameId s.numFrames) } := by
      rw [clampFrame]
      exact if_neg hempty
    rw [hclamp, if_neg hempty, nextFrame, if_pos]
    · rfl
    · simp only [hpaused, hstopped, Bool.not_false, Bool.true_and, Bool.and_eq_true,
        Bool.not_eq_true', decide_eq_true_eq]
      exact ⟨⟨by simpa using hempty, hlow⟩, hhigh⟩

theorem advance_eventData : (s.advance tick).eventData = s.eventData := by
  obtain ⟨_, _, _, _, h⟩ := advance_eq s tick
  have hdata := congrArg EventStream.eventData h
  exact hdata

theorem Off.of_currFrameId {t : EventStream} (h : Off s prev) (hdata : t.eventData = s.eventData)
    (hcurr : t.currFrameId = s.currFrameId) : Off t prev := by
  rw [Off, numFrames, hdata, hcurr]
  exact h

/-- A request that stands is still there after the round. -/
theorem Off.advance (h : Off s prev) (hstands : Stands s tick) (hmod : 1 ≤ tick.frameMod)
    (hpaused : s.paused = false) (hwaiting : s.waitingForHint = false)
    (hsends : resting s tick = false → sends s tick = true) : Off (s.advance tick) prev := by
  by_cases hresting : resting s tick = true
  · exact h.of_currFrameId advance_eventData (advance_resting hresting)
  by_cases hstopped : s.stopped = true
  · exact h.of_currFrameId advance_eventData (advance_stopped hstopped)
  have hmoves := (hstands.resolve_left hstopped).resolve_left hresting
  rw [Bool.not_eq_true] at hresting hstopped
  rw [Off, numFrames, advance_eventData,
    advance_playing hstopped hpaused hwaiting hresting (hsends hresting)]
  have hframes : 0 ≤ s.numFrames := Int.natCast_nonneg _
  change if prev then _ else _ > s.numFrames
  by_cases hempty : s.eventData.frames.isEmpty = true
  · rw [if_pos hempty] at hmoves ⊢
    cases prev with
    | true =>
      have hcurr : s.currFrameId ≤ 0 := h
      rw [if_pos hcurr] at hmoves
      exact add_nonpos hcurr hmoves
    | false =>
      have hcurr : s.currFrameId > s.numFrames := h
      rw [if_neg (by omega)] at hmoves
      exact lt_add_of_lt_of_nonneg hcurr hmoves
  · rw [if_neg hempty] at hmoves ⊢
    obtain ⟨hmode, hrate⟩ := hmoves
    have hlength : 0 < s.numFrames := by
      rw [numFrames, Int.natCast_pos, List.length_pos_iff]
      simpa using hempty
    dsimp only
    cases prev with
    | true =>
      have hcurr : s.currFrameId ≤ 0 := h
      have hback := hrate.mp hcurr
      rw [if_pos rfl, if_neg (fun hsingle ↦ hmode hsingle.1), if_neg (by omega)]
      omega
    | false =>
      have hcurr : s.currFrameId > s.numFrames := h
      have hforth : s.replayRate > 0 := by
        by_contra hback
        have := hrate.mpr (by omega)
        omega
      rw [if_neg Bool.false_ne_true, if_neg (fun hsingle ↦ hmode hsingle.1), if_pos hforth]
      omega

theorem change_ends (h : s.change world prev newEventId queried = some checked)
    (hneighbour : newEventId ≠ 0 →
      hintIsFor (s.uiHint prev) s.eventData.eventId = true ∧ newEventId = (s.uiHint prev).eventId ∨
      s.uiManaged = false ∧ newEventId = s.sameMonitorEvent world prev) :
    Leaves s world prev checked ∧ checked.stream.forceEventChange = false ∧
      checked.stream.waitingForHint = false := by
  rw [change] at h
  dsimp only at h
  split at h
  · next hne =>
    obtain ⟨eventData, hload, hrest⟩ := Option.bind_eq_some_iff.mp h
    obtain ⟨hid, -⟩ := loadEventData_some hload
    obtain rfl := Option.some.inj hrest
    refine ⟨.inl ⟨rfl, ?_⟩, rfl, rfl⟩
    rw [← hid] at hneighbour
    exact hneighbour (hid ▸ hne)
  · obtain rfl := Option.some.inj h
    exact ⟨.inr ⟨rfl, rfl, .inr ⟨rfl, rfl, rfl⟩⟩, rfl, rfl⟩

/-- An event that is left by force is left for good, or the wait for its hint is on. -/
theorem leave_forced (hforce : s.forceEventChange = true)
    (hwaiting : s.waitingForHint = true → s.hintWaitPrev = prev) (hnow : world.now ≠ 0)
    (h : s.leave world prev = some checked) :
    Leaves s world prev checked ∧
      checked.stream.forceEventChange = checked.stream.waitingForHint ∧
      (checked.stream.waitingForHint = true →
        checked.stream.endStop = s.endStop ∧ checked.stream.hintWaitPrev = prev) := by
  have hends {id : ℕ} {queried : Bool} (h : s.change world prev id queried = some checked)
      (hneighbour : id ≠ 0 →
        hintIsFor (s.uiHint prev) s.eventData.eventId = true ∧ id = (s.uiHint prev).eventId ∨
        s.uiManaged = false ∧ id = s.sameMonitorEvent world prev) :
      Leaves s world prev checked ∧
        checked.stream.forceEventChange = checked.stream.waitingForHint ∧
        (checked.stream.waitingForHint = true →
          checked.stream.endStop = s.endStop ∧ checked.stream.hintWaitPrev = prev) := by
    obtain ⟨hleaves, hforced, hwaits⟩ := change_ends h hneighbour
    refine ⟨hleaves, hforced.trans hwaits.symm, ?_⟩
    intro hwait
    rw [hwaits] at hwait
    contradiction
  rw [leave, if_pos (.inl hforce)] at h
  dsimp only at h
  split at h
  · split at h
    · next hwait =>
      obtain rfl := Option.some.inj h
      have hprev := hwaiting hwait
      exact ⟨.inr ⟨rfl, rfl, .inl ⟨hwait, hprev, hforce⟩⟩, hforce.trans hwait.symm,
        fun _ ↦ ⟨rfl, hprev⟩⟩
    · obtain rfl := Option.some.inj h
      have hwait : ({ s with
          hintWaitStart := world.now
          hintWaitPrev := prev
          currFrameId := s.boundaryFrame prev } : EventStream).waitingForHint = true :=
        bne_iff_ne.mpr hnow
      exact ⟨.inr ⟨rfl, rfl, .inl ⟨hwait, rfl, hforce⟩⟩, hforce.trans hwait.symm,
        fun _ ↦ ⟨rfl, rfl⟩⟩
  · next hchoice =>
    refine hends h ?_
    intro hne
    split at hne
    · next hexists =>
      rw [if_pos hexists]
      exact .inl ⟨hintIsFor_of_choice hchoice, rfl⟩
    · contradiction
  · exact hends h fun hne ↦ absurd rfl hne
  · exact hends h fun hne ↦ absurd rfl hne
  · next hchoice =>
    exact hends h fun _ ↦ .inr ⟨unguided_of_choice hchoice, rfl⟩

theorem reload_forceEventChange (h : s.reload world = some checked) :
    checked.stream.forceEventChange = s.forceEventChange ∧ checked.loaded = false ∧
      checked.stream.eventData.eventId = s.eventData.eventId := by
  obtain ⟨eventData, hload, hrest⟩ := Option.bind_eq_some_iff.mp h
  obtain ⟨hid, -⟩ := loadEventData_some hload
  dsimp only at hrest
  split at hrest
  · obtain rfl := Option.some.inj hrest
    exact ⟨rfl, rfl, hid⟩
  · obtain rfl := Option.some.inj hrest
    exact ⟨rfl, rfl, hid⟩

theorem change_forceEventChange (h : s.change world prev newEventId queried = some checked) :
    checked.stream.forceEventChange = false := by
  rw [change] at h
  dsimp only at h
  split at h
  · obtain ⟨_, -, hrest⟩ := Option.bind_eq_some_iff.mp h
    obtain rfl := Option.some.inj hrest
    rfl
  · obtain rfl := Option.some.inj h
    rfl

theorem checkEventLoaded_forceEventChange (h : s.checkEventLoaded world = some checked)
    (hforce : s.forceEventChange = false) : checked.stream.forceEventChange = false := by
  rw [checkEventLoaded] at h
  split at h
  · obtain rfl := Option.some.inj h
    exact hforce
  · exact (reload_forceEventChange h).1.trans hforce
  · rw [leave] at h
    split at h
    · dsimp only at h
      split at h
      · split at h
        · obtain rfl := Option.some.inj h
          exact hforce
        · obtain rfl := Option.some.inj h
          exact hforce
      · exact change_forceEventChange h
      · exact change_forceEventChange h
      · exact change_forceEventChange h
      · exact change_forceEventChange h
    · obtain rfl := Option.some.inj h
      exact hforce

/-- Where an event plays alone, it is left by force only. -/
theorem checkEventLoaded_alone (h : s.checkEventLoaded world = some checked)
    (hmode : s.mode = .single ∨ s.mode = .none) (hforce : s.forceEventChange = false) :
    checked.loaded = false ∧ checked.stream.eventData.eventId = s.eventData.eventId := by
  rw [checkEventLoaded] at h
  split at h
  · obtain rfl := Option.some.inj h
    exact ⟨rfl, rfl⟩
  · exact (reload_forceEventChange h).2
  · have halone : ¬(s.forceEventChange ∨ s.mode ≠ .single ∧ s.mode ≠ .none) := by
      rw [hforce]
      rcases hmode with hmode | hmode <;> simp [hmode]
    rw [leave, if_neg halone] at h
    obtain rfl := Option.some.inj h
    exact ⟨rfl, rfl⟩

structure Serving (l : Loop) (prev : Bool) : Prop where
  endStop : l.stream.endStop = false
  waiting : l.stream.waitingForHint = true → l.stream.hintWaitPrev = prev
  off : l.stream.waitingForHint = false → l.next ≠ .done →
    l.stream.paused = false ∧ Off l.stream prev

/-- A change of the event is forced exactly while a request is being served. -/
structure Loop.Sound (l : Loop) : Prop where
  force : l.stream.forceEventChange = l.request.isSome
  serving : ∀ prev, l.request = some prev → Serving l prev

theorem Serving.course (h : Serving l prev) (hnext : l.next = .check)
    (hended : l.stream.waitingForHint = false → l.stream.currFrameId > l.stream.numFrames →
      l.stream.eventData.endTime ≠ 0) : l.stream.course = .leave prev := by
  rw [EventStream.course]
  cases hwaiting : l.stream.waitingForHint with
  | true => rw [if_pos rfl, h.waiting hwaiting]
  | false =>
    obtain ⟨-, hoff⟩ := h.off hwaiting (by rw [hnext]; decide)
    rw [if_neg Bool.false_ne_true]
    cases prev with
    | true =>
      have hcurr : l.stream.currFrameId ≤ 0 := hoff
      rw [if_pos hcurr]
    | false =>
      have hcurr : l.stream.currFrameId > l.stream.numFrames := hoff
      have hframes : 0 ≤ l.stream.numFrames := Int.natCast_nonneg _
      rw [if_neg (by omega), if_pos hcurr, if_neg (hended hwaiting hcurr)]

theorem serving_requested {next : Section} {request : Option Bool} (now : ℤ)
    (h : requested s msg.command = some prev) :
    Serving ⟨s.processCommand msg now, next, request⟩ prev ∧
      (s.processCommand msg now).forceEventChange = true := by
  have hmoves : s.processCommand msg now = { s with
      hintWaitStart := 0, endStop := false, paused := false, forceEventChange := true
      currFrameId := if prev then 0 else s.numFrames + 1 } := by
    cases hc : msg.command with
    | prev =>
      rw [hc] at h
      obtain rfl := Option.some.inj h
      rw [processCommand, if_pos (by rw [hc]; decide), obey, hc]
      simp [numFrames]
    | next =>
      rw [hc] at h
      obtain rfl := Option.some.inj h
      rw [processCommand, if_pos (by rw [hc]; decide), obey, hc]
      simp only [decide_eq_true_eq, numFrames, ← not_lt, ite_not]
    | _ =>
      rw [hc] at h
      contradiction
  rw [hmoves]
  refine ⟨⟨rfl, (by cases ·), fun _ _ ↦ ⟨rfl, ?_⟩⟩, rfl⟩
  cases prev with
  | true => exact le_rfl
  | false => exact lt_add_one s.numFrames

theorem Loop.Sound.command (h : l.Sound) (hop : Unhindered l (.command msg now))
    (hstep : l.step (.command msg now) = some l') : l'.Sound := by
  obtain rfl := Option.some.inj hstep
  by_cases hkeep : msg.command = .query ∨ msg.command = .setEvent
  · rw [if_pos hkeep]
    have hforce := processCommand_forceEventChange (s := l.stream) now
      (fun hc : msg.command = .prev ↦ by simp [hc] at hkeep)
      (fun hc : msg.command = .next ↦ by simp [hc] at hkeep)
    refine ⟨hforce.trans h.force, ?_⟩
    intro prev hrequest
    have hserving := h.serving prev hrequest
    rcases hkeep with hquery | hset
    · have hsame : l.stream.processCommand msg now = l.stream := by
        rw [processCommand, if_neg (fun hne ↦ hne.1 hquery), obey, hquery]
      rw [hsame]
      exact ⟨hserving.endStop, hserving.waiting, hserving.off⟩
    · obtain ⟨uiPrevHint, uiNextHint, hsame⟩ :=
        setEvent_of_endStop hserving.endStop (decodeSetEvent msg.msgData) now
      rw [processCommand_setEvent hset, hsame]
      exact ⟨hserving.endStop, hserving.waiting, hserving.off⟩
  · rw [if_neg hkeep]
    cases hrequest : requested l.stream msg.command with
    | some prev =>
      obtain ⟨hserving, hforce⟩ := serving_requested now hrequest
      refine ⟨hforce, ?_⟩
      intro prev' hprev
      obtain rfl := Option.some.inj hprev
      exact hserving
    | none =>
      have hprev : msg.command ≠ .prev := by
        intro hc
        rw [hc] at hrequest
        contradiction
      have hnext : msg.command ≠ .next := by
        intro hc
        rw [hc] at hrequest
        contradiction
      refine ⟨(processCommand_forceEventChange now hprev hnext).trans ?_,
        fun prev hnone ↦ absurd hnone.symm (Option.some_ne_none prev)⟩
      by_contra hforce
      have hallowed := hop ((Bool.not_eq_false _).mp hforce)
      simp [hprev, hnext] at hallowed
      exact hkeep hallowed

theorem Loop.Sound.advance (h : l.Sound) (hop : Unhindered l (.advance tick))
    (hstep : l.step (.advance tick) = some l') : l'.Sound := by
  obtain ⟨step, sendFrame, sendTwice, zmTerminate, hstream⟩ := advance_eq l.stream tick
  have hforce : (l.stream.advance tick).forceEventChange = l.stream.forceEventChange := by
    rw [hstream]
  have hwaits : (l.stream.advance tick).waitingForHint = l.stream.waitingForHint := by
    rw [hstream]
    rfl
  have hpaused : (l.stream.advance tick).paused = l.stream.paused := by rw [hstream]
  have hendStop : (l.stream.advance tick).endStop = l.stream.endStop := by rw [hstream]
  have hprev : (l.stream.advance tick).hintWaitPrev = l.stream.hintWaitPrev := by rw [hstream]
  by_cases hnext : l.next = .send
  case neg =>
    rw [Loop.step, if_neg hnext] at hstep
    contradiction
  rw [Loop.step, if_pos hnext] at hstep
  obtain rfl := Option.some.inj hstep
  refine ⟨hforce.trans h.force, ?_⟩
  intro prev hrequest
  have hserving := h.serving prev hrequest
  have hforced : l.stream.forceEventChange = true := by
    rw [h.force, hrequest]
    rfl
  refine ⟨hendStop.trans hserving.endStop, ?_, ?_⟩
  · rw [hwaits, hprev]
    exact hserving.waiting
  · rw [hwaits, hpaused]
    intro hwaiting hdone
    obtain ⟨hplays, hoff⟩ := hserving.off hwaiting (by rw [hnext]; decide)
    refine ⟨hplays, hoff.advance (hop.2 hforced hwaiting) hop.1 hplays hwaiting ?_⟩
    intro hresting
    by_contra hsends
    simp [hresting, hsends] at hdone

theorem Loop.Sound.check (h : l.Sound) (hop : Unhindered l (.check world))
    (hstep : l.step (.check world) = some l') : l'.Sound := by
  simp only [Loop.step] at hstep
  split_ifs at hstep with hnext
  obtain ⟨checked, hcheck, hrest⟩ := Option.bind_eq_some_iff.mp hstep
  obtain rfl := Option.some.inj hrest
  cases hrequest : l.request with
  | some prev =>
    have hserving := h.serving prev hrequest
    have hforced : l.stream.forceEventChange = true := by
      rw [h.force, hrequest]
      rfl
    rw [checkEventLoaded, hserving.course hnext (hop.2 hforced)] at hcheck
    obtain ⟨-, hforce, hwaits⟩ := leave_forced hforced hserving.waiting hop.1 hcheck
    refine ⟨?_, ?_⟩
    · dsimp only
      rw [hforce]
      cases checked.stream.waitingForHint
      · rfl
      · rfl
    · intro prev' hprev'
      dsimp only at hprev'
      split_ifs at hprev' with hwaiting
      obtain rfl := Option.some.inj hprev'
      obtain ⟨hendStop, hprev⟩ := hwaits hwaiting
      refine ⟨hendStop.trans hserving.endStop, fun _ ↦ hprev, ?_⟩
      intro hnot
      rw [hwaiting] at hnot
      contradiction
  | none =>
    have hforced : l.stream.forceEventChange = false := by
      rw [h.force, hrequest]
      rfl
    refine ⟨?_, ?_⟩
    · dsimp only
      rw [ite_self]
      exact checkEventLoaded_forceEventChange hcheck hforced
    · intro prev hprev
      dsimp only at hprev
      rw [ite_self] at hprev
      contradiction

theorem Loop.Sound.step (h : l.Sound) (hop : Unhindered l op) (hstep : l.step op = some l') :
    l'.Sound := by
  cases op with
  | command msg now => exact h.command hop hstep
  | advance tick => exact h.advance hop hstep
  | check world => exact h.check hop hstep

/-- Every explicit request is served: the check leaves the event in its direction, a change of the
event is forced only until then, and an event that plays alone is left for a request only. -/
theorem request_served (hforce : s.forceEventChange = false)
    (hrun : Run Loop.step Unhindered ⟨s, .send, none⟩ ops l) :
    (∀ prev world checked, l.request = some prev → l.next = .check →
      Unhindered l (.check world) → l.stream.checkEventLoaded world = some checked →
      l.stream.course = .leave prev ∧ Leaves l.stream world prev checked) ∧
    (l.stream.forceEventChange = true → l.request ≠ none) ∧
    ∀ world checked, l.stream.mode = .single ∨ l.stream.mode = .none →
      l.stream.checkEventLoaded world = some checked →
      (checked.loaded = true ∨
        checked.stream.eventData.eventId ≠ l.stream.eventData.eventId) → l.request ≠ none := by
  have hsound : l.Sound :=
    hrun.invariant (fun _ _ _ hs hp ht ↦ Loop.Sound.step hs hp ht)
      ⟨hforce, fun prev hnone ↦ absurd hnone.symm (Option.some_ne_none prev)⟩
  have hserved : l.stream.forceEventChange = true → l.request ≠ none := by
    rw [hsound.force, Option.isSome_iff_ne_none]
    exact id
  refine ⟨?_, hserved, ?_⟩
  · intro prev world checked hrequest hnext hop hcheck
    have hserving := hsound.serving prev hrequest
    have hforced : l.stream.forceEventChange = true := by
      rw [hsound.force, hrequest]
      rfl
    have hcourse := hserving.course hnext (hop.2 hforced)
    rw [checkEventLoaded, hcourse] at hcheck
    exact ⟨hcourse, (leave_forced hforced hserving.waiting hop.1 hcheck).1⟩
  · intro world checked hmode hcheck hleft
    apply hserved
    by_contra hforced
    obtain ⟨hloaded, hid⟩ := checkEventLoaded_alone hcheck hmode (by simpa using hforced)
    rcases hleft with hleft | hleft
    · rw [hloaded] at hleft
      contradiction
    · exact hleft hid

def twoFrames (mode : StreamMode) (endTime : ℤ) : EventStream where
  mode := mode
  eventData := ⟨101, 1, endTime, 1000000,
    [⟨1, 2000000000, 0, 0, true⟩, ⟨2, 2000500000, 500000, 500000, true⟩]⟩
  currFrameId := 1

def followed : World :=
  ⟨7, [⟨102, 1, ⟨0, 5000000000, 6000000000, 0⟩, []⟩], ⟨fun q ↦ ⌊1000000 * q⌋, fun q ↦ ⌊q⌋⟩, []⟩

def nextMsg : CmdMsg := ⟨[13, 0, 0, 0, 0, 0, 0, 0, 0, 0, 0, 0, 0, 0, 0, 0], rfl⟩

def prevMsg : CmdMsg := ⟨[12, 0, 0, 0, 0, 0, 0, 0, 0, 0, 0, 0, 0, 0, 0, 0], rfl⟩

def seekMsg : CmdMsg := ⟨[14, 0, 0, 0, 0, 0, 0, 0, 0, 0, 0, 0, 0, 0, 0, 0], rfl⟩

theorem request_served_next : ∃ (l : Loop) (checked : Checked), l.request = some false ∧
    l.stream.checkEventLoaded followed = some checked ∧
    checked.stream.eventData.eventId = 102 ∧
    l.stream.course = .leave false ∧ Leaves l.stream followed false checked := by
  obtain ⟨l, hrun, hq⟩ := Run.exists_of_any Loop.step Unhindered
    ⟨twoFrames .none 3000000000, .send, none⟩
    [.advance ⟨1, 0, 0, true, true⟩, .command nextMsg 5]
    (fun l ↦ decide (l.request = some false ∧ l.next = .check ∧ Unhindered l (.check followed)) &&
      (l.stream.checkEventLoaded followed).any
        (fun checked ↦ checked.stream.eventData.eventId == 102)) (by decide)
  obtain ⟨hreached, hloads⟩ := (Bool.and_eq_true _ _).mp hq
  obtain ⟨hrequest, hnext, hop⟩ := of_decide_eq_true hreached
  obtain ⟨checked, hcheck, hid⟩ := (Option.any_eq_true _ _).mp hloads
  obtain ⟨hserved, -, -⟩ := request_served rfl hrun
  obtain ⟨hcourse, hleaves⟩ := hserved false followed checked hrequest hnext hop hcheck
  exact ⟨l, checked, hrequest, hcheck, beq_iff_eq.mp hid, hcourse, hleaves⟩

/-- CMD_PREV in front of the round is swallowed by the frame that it sends; CMD_NEXT only loads an
event in process again; and where CMD_SEEK follows CMD_NEXT, the event is left at its end without a
request. -/
theorem request_lost :
    (∃ ops l, Run Loop.step (fun _ _ ↦ True) ⟨twoFrames .all 3000000000, .send, none⟩ ops l ∧
      l.next = .check ∧ l.request = some true ∧ l.stream.course = .stay) ∧
    (∃ ops l, Run Loop.step (fun _ _ ↦ True) ⟨twoFrames .all 0, .send, none⟩ ops l ∧
      l.next = .check ∧ l.request = some false ∧ l.stream.course = .reload) ∧
    ∃ ops l checked,
      Run Loop.step (fun _ _ ↦ True) ⟨twoFrames .none 3000000000, .send, none⟩ ops l ∧
      l.next = .check ∧ l.request = none ∧ l.stream.forceEventChange = true ∧
      l.stream.checkEventLoaded followed = some checked ∧
      checked.stream.eventData.eventId = 102 := by
  refine ⟨?_, ?_, ?_⟩
  · obtain ⟨l, hrun, hq⟩ := Run.exists_of_any Loop.step (fun _ _ ↦ True)
      ⟨twoFrames .all 3000000000, .send, none⟩
      [.command prevMsg 5, .advance ⟨1, 0, 0, true, true⟩]
      (fun l ↦ l.next = .check ∧ l.request = some true ∧ l.stream.course = .stay) (by decide)
    exact ⟨_, l, hrun, of_decide_eq_true hq⟩
  · obtain ⟨l, hrun, hq⟩ := Run.exists_of_any Loop.step (fun _ _ ↦ True)
      ⟨twoFrames .all 0, .send, none⟩
      [.advance ⟨1, 0, 0, true, true⟩, .command nextMsg 5]
      (fun l ↦ l.next = .check ∧ l.request = some false ∧ l.stream.course = .reload) (by decide)
    exact ⟨_, l, hrun, of_decide_eq_true hq⟩
  · obtain ⟨l, hrun, hq⟩ := Run.exists_of_any Loop.step (fun _ _ ↦ True)
      ⟨twoFrames .none 3000000000, .send, none⟩
      [.advance ⟨1, 0, 0, true, true⟩, .command nextMsg 5, .command seekMsg 6, .check followed,
        .advance ⟨1, 0, 0, true, true⟩, .check followed, .advance ⟨1, 0, 0, true, true⟩]
      (fun l ↦ decide (l.next = .check ∧ l.request = none ∧ l.stream.forceEventChange = true) &&
        (l.stream.checkEventLoaded followed).any
          (fun checked ↦ checked.stream.eventData.eventId == 102)) (by decide)
    obtain ⟨hreached, hloads⟩ := (Bool.and_eq_true _ _).mp hq
    obtain ⟨hnext, hrequest, hforce⟩ := of_decide_eq_true hreached
    obtain ⟨checked, hcheck, hid⟩ := (Option.any_eq_true _ _).mp hloads
    exact ⟨_, l, checked, hrun, hnext, hrequest, hforce, hcheck, beq_iff_eq.mp hid⟩

end ZoneMinder.EventStream
