import ZoneMinder.EventStream.Requests

namespace ZoneMinder.EventStream

open Lib

variable {s start : EventStream} {l l' : Loop} {msg : CmdMsg} {now : ℤ} {world : World}
  {checked : Checked} {prev queried : Bool} {newEventId target : ℕ} {op : Op} {ops : List Op}
  {ticks : List Tick} {command : SetEventCommand}

/-- The check that comes is the load of an event, and nothing but that. -/
def Plays (s : EventStream) (world : World) (target : ℕ) : Prop :=
  (s.checkEventLoaded world).map (fun checked ↦ (checked.loaded, checked.stream.eventData)) =
    (loadEventData world target).map fun eventData ↦ (true, eventData)

def StopsForced (s : EventStream) : Prop := s.endStop = true → s.forceEventChange = false

theorem obey_endStop (hset : msg.command ≠ .setEvent) : (s.obey msg now).endStop = s.endStop := by
  have hmotion : IgnoresMotion endStop := fun _ _ _ _ _ _ _ _ ↦ rfl
  rw [hmotion.obey, steer]
  split
  case h_8 h => exact absurd h hset
  all_goals rfl

theorem setEvent_resumes (hfor : hintIsFor command.hint s.eventData.eventId = true)
    (hresumes : hintResumes command s.endStop s.endStopPrev = true) :
    s.setEvent command now =
      { ({ s with uiManaged := true }.setUiHint command.prev command.hint) with
        endStop := false, paused := false, hintWaitStart := now, hintWaitPrev := command.prev } := by
  have hstop (prev : Bool) : ({ s with uiManaged := true }.setUiHint prev command.hint).endStop =
      s.endStop ∧ ({ s with uiManaged := true }.setUiHint prev command.hint).endStopPrev =
        s.endStopPrev := by
    cases prev
    · exact ⟨rfl, rfl⟩
    · exact ⟨rfl, rfl⟩
  rw [setEvent]
  dsimp only
  rw [if_pos hfor, resume, (hstop _).1, (hstop _).2, if_pos hresumes]

theorem setEvent_endStop (h : (s.setEvent command now).endStop = true) : s.endStop = true := by
  cases hstop : s.endStop with
  | true => rfl
  | false =>
    obtain ⟨_, _, heq⟩ := setEvent_of_endStop hstop command now
    rw [heq] at h
    exact hstop.symm.trans h

theorem StopsForced.of_command (h : StopsForced s) : StopsForced (s.processCommand msg now) := by
  intro hstop
  rw [processCommand] at hstop ⊢
  by_cases hset : msg.command = .setEvent
  · have hobey (t : EventStream) : t.obey msg now = t.setEvent (decodeSetEvent msg.msgData) now := by
      rw [obey, hset]
    rw [if_neg fun hne ↦ hne.2 hset, hobey] at hstop ⊢
    rw [setEvent_forceEventChange]
    exact h (setEvent_endStop hstop)
  split at hstop
  · rw [obey_endStop hset] at hstop
    contradiction
  · next hquery =>
    rw [if_neg hquery]
    rw [obey_endStop hset] at hstop
    have hobey : msg.command = .query := by
      by_contra hne
      exact hquery ⟨hne, hset⟩
    rw [obey, hobey]
    exact h hstop

theorem StopsForced.advance (h : StopsForced s) (tick : Tick) : StopsForced (s.advance tick) := by
  obtain ⟨_, _, _, _, heq⟩ := advance_eq s tick
  rw [heq]
  exact h

theorem StopsForced.check (h : StopsForced s) (hcheck : s.checkEventLoaded world = some checked) :
    StopsForced checked.stream := by
  rw [checkEventLoaded] at hcheck
  split at hcheck
  · obtain rfl := Option.some.inj hcheck
    exact h
  · obtain ⟨_, -, hrest⟩ := Option.bind_eq_some_iff.mp hcheck
    dsimp only at hrest
    split at hrest
    · obtain rfl := Option.some.inj hrest
      exact h
    · obtain rfl := Option.some.inj hrest
      exact h
  · rw [leave] at hcheck
    split at hcheck
    · dsimp only at hcheck
      split at hcheck
      · split at hcheck
        · obtain rfl := Option.some.inj hcheck
          exact h
        · obtain rfl := Option.some.inj hcheck
          exact h
      all_goals exact fun _ ↦ change_forceEventChange hcheck
    · obtain rfl := Option.some.inj hcheck
      exact h

theorem StopsForced.step (h : StopsForced l.stream) (hstep : l.step op = some l') :
    StopsForced l'.stream := by
  cases op with
  | command msg now =>
    obtain rfl := Option.some.inj hstep
    exact h.of_command
  | advance tick =>
    rw [Loop.step] at hstep
    split at hstep
    · obtain rfl := Option.some.inj hstep
      exact h.advance tick
    · contradiction
  | check world =>
    rw [Loop.step] at hstep
    split at hstep
    · obtain ⟨checked, hcheck, hrest⟩ := Option.bind_eq_some_iff.mp hstep
      obtain rfl := Option.some.inj hrest
      exact h.check hcheck
    · contradiction

/-- What the rounds after a SET_EVENT that resumes keep: the wait through which its event loads. -/
structure Resuming (s : EventStream) (command : SetEventCommand) (mode : StreamMode) : Prop where
  mode : s.mode = mode
  force : s.forceEventChange = false
  waiting : s.waitingForHint = true
  hintWaitPrev : s.hintWaitPrev = command.prev
  uiHint : s.uiHint command.prev = command.hint
  hintIsFor : hintIsFor command.hint s.eventData.eventId = true

theorem Resuming.advance {mode : StreamMode} (h : Resuming s command mode) (tick : Tick) :
    Resuming (s.advance tick) command mode := by
  obtain ⟨_, _, _, _, heq⟩ := advance_eq s tick
  rw [heq]
  exact ⟨h.mode, h.force, h.waiting, h.hintWaitPrev, h.uiHint, h.hintIsFor⟩

theorem Resuming.of_setEvent (h : StopsForced s) (hnow : now ≠ 0)
    (hfor : EventStream.hintIsFor command.hint s.eventData.eventId = true)
    (hresumes : hintResumes command s.endStop s.endStopPrev = true) :
    Resuming (s.setEvent command now) command s.mode := by
  have hstop : s.endStop = true := by
    rw [hintResumes, Bool.and_eq_true, Bool.and_eq_true] at hresumes
    exact hresumes.1.1
  have hforce := h hstop
  rw [setEvent_resumes hfor hresumes]
  cases hprev : command.prev with
  | true =>
    refine ⟨rfl, hforce, bne_iff_ne.mpr hnow, hprev.symm, ?_, hfor⟩
    rw [hprev]
    rfl
  | false =>
    refine ⟨rfl, hforce, bne_iff_ne.mpr hnow, hprev.symm, ?_, hfor⟩
    rw [hprev]
    rfl

theorem Resuming.run {mode : StreamMode} (h : Resuming l.stream command mode)
    (hrun : Run Loop.step (fun _ _ ↦ True) l (ticks.map .advance) l') :
    Resuming l'.stream command mode := by
  induction ticks generalizing l with
  | nil =>
    cases hrun
    exact h
  | cons tick ticks ih =>
    cases hrun with
    | cons _ hstep hrest =>
      refine ih ?_ hrest
      rw [Loop.step] at hstep
      split at hstep
      · obtain rfl := Option.some.inj hstep
        exact h.advance tick
      · contradiction

theorem Resuming.plays_iff {mode : StreamMode} (h : Resuming s command mode)
    (htarget : command.eventId ≠ 0) (hexists : eventExists world command.eventId = true) :
    Plays s world command.eventId ↔ mode ≠ .single ∧ mode ≠ .none := by
  have hcourse : s.course = .leave command.prev := by
    rw [course, if_pos h.waiting, h.hintWaitPrev]
  have hchoice (waited : ℤ) : chooseNeighbour command.hint s.eventData.eventId s.uiManaged waited =
      .hint := by
    rw [chooseNeighbour, if_pos h.hintIsFor]
    exact if_pos htarget
  have hid : command.hint.eventId = command.eventId := rfl
  rw [Plays, checkEventLoaded, hcourse]
  dsimp only
  rw [leave, h.force, h.mode]
  by_cases hmode : mode ≠ .single ∧ mode ≠ .none
  · refine iff_of_true ?_ hmode
    rw [if_pos (.inr hmode)]
    dsimp only
    rw [h.uiHint, hchoice]
    dsimp only
    rw [hid, if_pos hexists, change]
    dsimp only
    rw [if_pos htarget]
    cases loadEventData world command.eventId with
    | none => rfl
    | some eventData => rfl
  · refine iff_of_false ?_ hmode
    rw [if_neg (by simpa using hmode)]
    cases loadEventData world command.eventId with
    | none => exact Option.some_ne_none _
    | some eventData =>
      intro heq
      exact absurd (congrArg Prod.fst (Option.some.inj heq)) Bool.false_ne_true

/-- Exactly when a hint that resumes a stopped stream is played. -/
theorem resumed_hint_plays_iff (hstart : start.endStop = false)
    (hrun : Run Loop.step (fun _ _ ↦ True) ⟨start, .send, none⟩ ops l)
    (hset : msg.command = .setEvent) (hnow : now ≠ 0)
    (hfor : hintIsFor (decodeSetEvent msg.msgData).hint l.stream.eventData.eventId = true)
    (hresumes : hintResumes (decodeSetEvent msg.msgData) l.stream.endStop l.stream.endStopPrev =
      true)
    (hrounds : Run Loop.step (fun _ _ ↦ True) l (.command msg now :: ticks.map .advance) l')
    (hexists : eventExists world (decodeSetEvent msg.msgData).eventId = true) :
    Plays l'.stream world (decodeSetEvent msg.msgData).eventId ↔
      l.stream.mode ≠ .single ∧ l.stream.mode ≠ .none := by
  have hstops : StopsForced l.stream := by
    refine hrun.invariant (fun _ _ _ hs _ ht ↦ StopsForced.step hs ht) ?_
    intro hstop
    exact absurd (hstart.symm.trans hstop) Bool.false_ne_true
  have htarget : (decodeSetEvent msg.msgData).eventId ≠ 0 := by
    rw [hintResumes, Bool.and_eq_true, Bool.and_eq_true, bne_iff_ne] at hresumes
    exact hresumes.1.2
  cases hrounds with
  | cons _ hstep hrest =>
    obtain rfl := Option.some.inj hstep
    have hresuming := Resuming.of_setEvent hstops hnow hfor hresumes
    rw [← processCommand_setEvent hset] at hresuming
    exact (hresuming.run hrest).plays_iff htarget hexists

def hintMsg (eventId : UInt8) : CmdMsg :=
  ⟨[22, 0, 0, 0, 0, 0, 0, 0, 0, eventId, 0, 0, 0, 0, 0, 101], rfl⟩

/-- The UI says that its filter ends with event 101, and CMD_NEXT stops the stream there. -/
def stoppedAt (mode : StreamMode) : Loop where
  stream :=
    { twoFrames mode 3000000000 with
      uiManaged := true, uiNextHint := ⟨true, 0, 101⟩, sendFrame := true, endStop := true
      currFrameId := 2, paused := true }

theorem stoppedAt_reached (mode : StreamMode) :
    Run Loop.step (fun _ _ ↦ True) ⟨twoFrames mode 3000000000, .send, none⟩
      [.command (hintMsg 0) 5, .advance ⟨1, 0, 0, true, true⟩, .command nextMsg 6, .check followed]
      (stoppedAt mode) := by
  apply Run.of_foldlM
  cases mode <;> decide

/-- An event recorded since is then played, in a mode that leaves events. -/
theorem resumed_hint_plays_all : ∃ l' : Loop,
    Run Loop.step (fun _ _ ↦ True) (stoppedAt .all)
      (.command (hintMsg 102) 7 :: [⟨1, 0, 0, true, true⟩].map .advance) l' ∧
    Plays l'.stream followed 102 := by
  obtain ⟨l', hrounds, -⟩ := Run.exists_of_any Loop.step (fun _ _ ↦ True) (stoppedAt .all)
    (.command (hintMsg 102) 7 :: [⟨1, 0, 0, true, true⟩].map .advance) (fun _ ↦ true) (by decide)
  refine ⟨l', hrounds, ?_⟩
  exact (resumed_hint_plays_iff rfl (stoppedAt_reached .all) (by decide) (by decide) (by decide)
    (by decide) hrounds (by decide)).mpr (by decide)

/-- Where an event plays alone the stream pauses again. -/
theorem resumed_hint_paused :
    ¬ ∀ (start : EventStream) (ops : List Op) (l l' : Loop) (msg : CmdMsg) (now : ℤ)
      (ticks : List Tick) (world : World), start.endStop = false →
      Run Loop.step (fun _ _ ↦ True) ⟨start, .send, none⟩ ops l →
      msg.command = .setEvent → now ≠ 0 →
      hintIsFor (decodeSetEvent msg.msgData).hint l.stream.eventData.eventId = true →
      hintResumes (decodeSetEvent msg.msgData) l.stream.endStop l.stream.endStopPrev = true →
      Run Loop.step (fun _ _ ↦ True) l (.command msg now :: ticks.map .advance) l' →
      eventExists world (decodeSetEvent msg.msgData).eventId = true →
      Plays l'.stream world (decodeSetEvent msg.msgData).eventId := by
  intro h
  obtain ⟨l', hrounds, hpaused⟩ := Run.exists_of_any Loop.step (fun _ _ ↦ True) (stoppedAt .single)
    (.command (hintMsg 102) 7 :: [⟨1, 0, 0, true, true⟩].map .advance)
    (fun l' ↦ (l'.stream.checkEventLoaded followed).any fun checked ↦ !checked.loaded) (by decide)
  have hplays := h (twoFrames .single 3000000000) _ (stoppedAt .single) l' (hintMsg 102) 7 _ followed
    rfl (stoppedAt_reached .single) (by decide) (by decide) (by decide) (by decide) hrounds
    (by decide)
  obtain ⟨checked, hcheck, hloaded⟩ := (Option.any_eq_true _ _).mp hpaused
  rw [Plays, hcheck] at hplays
  cases hload : loadEventData followed (decodeSetEvent (hintMsg 102).msgData).eventId with
  | none =>
    rw [hload] at hplays
    exact absurd hplays (Option.some_ne_none _)
  | some eventData =>
    rw [hload] at hplays
    have hboth := congrArg Prod.fst (Option.some.inj hplays)
    have hboth' : checked.loaded = true := hboth
    rw [hboth'] at hloaded
    contradiction

end ZoneMinder.EventStream
