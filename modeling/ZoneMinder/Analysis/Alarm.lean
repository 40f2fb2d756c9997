import ZoneMinder.Analysis.Analyse
import ZoneMinder.Lib.Nesting
import ZoneMinder.Lib.Run

namespace ZoneMinder.Analysis

open Lib

def Monitor.alarmed (m : Monitor) : Prop := m.state = .alarm ∨ m.state = .alert

/-- Whether an ALARM is outstanding; none when two of a kind follow each other or the first
is an ALARM_END. -/
def outstanding (m : Monitor) : Option Bool := brackets .alarm .alarmEnd false m.actions

/-- The alarm actions alternate, and none is outstanding outside of an alarm. -/
def Bracketed (m : Monitor) : Prop :=
  ∃ isOpen, outstanding m = some isOpen ∧
    (m.state = .idle ∨ m.state = .prealarm → isOpen = false)

structure Tracked (m : Monitor) : Prop where
  actions : outstanding m = some m.alarmActionsFired
  fired : m.alarmActionsFired = true ↔ m.alarmed

variable {m m' : Monitor}

theorem Tracked.bracketed (h : Tracked m) : Bracketed m := by
  refine ⟨_, h.actions, fun hstate ↦ ?_⟩
  rw [Bool.eq_false_iff]
  intro hfired
  rcases h.fired.mp hfired with halarm | halert
  · rw [halarm] at hstate
    exact absurd hstate (by decide)
  · rw [halert] at hstate
    exact absurd hstate (by decide)

theorem outstanding_event {isOpen : Bool} {trigger : TriggerOn} (htrigger : trigger ≠ .alarm)
    (hend : trigger ≠ .alarmEnd) (h : outstanding m = some isOpen) :
    outstanding (runActions trigger m) = some isOpen := brackets_other htrigger hend h

theorem closeEvent_actions (h : outstanding m = some m.alarmActionsFired) :
    outstanding (closeEvent m) = some m.alarmActionsFired := by
  unfold closeEvent
  split
  · exact outstanding_event (by decide) (by decide) h
  · exact h

theorem closeEvent_frame (m : Monitor) : (closeEvent m).alarmActionsFired = m.alarmActionsFired ∧
    (closeEvent m).state = m.state := by
  unfold closeEvent
  split <;> exact ⟨rfl, rfl⟩

theorem Tracked.closeEvent (h : Tracked m) : Tracked (closeEvent m) := by
  obtain ⟨hfired, hstate⟩ := closeEvent_frame m
  refine ⟨by rw [hfired, closeEvent_actions h.actions], ?_⟩
  rw [hfired, Monitor.alarmed, hstate]
  exact h.fired

/-- Every way out of the alarm that calls EndAlarmActions. -/
theorem tracked_endAlarmActions (h : outstanding m = some m.alarmActionsFired) :
    Tracked (endAlarmActions (setState .idle m)) := by
  unfold endAlarmActions
  split
  · next hfired =>
    refine ⟨brackets_stop (by decide) ?_, ⟨nofun, nofun⟩⟩
    have hopen : m.alarmActionsFired = true := hfired
    rw [hopen] at h
    exact h
  · next hfired =>
    have hclosed : m.alarmActionsFired = false := Bool.eq_false_iff.mpr hfired
    refine ⟨h, ⟨fun hopen ↦ absurd hopen hfired, nofun⟩⟩

theorem Tracked.openEvent (h : Tracked m) (start : EventStart) : Tracked (openEvent start m) := by
  cases start with
  | locked => exact h
  | here => exact ⟨outstanding_event (by decide) (by decide) h.actions, h.fired⟩
  | earlier duration =>
    unfold Analysis.openEvent
    dsimp only
    split <;> exact ⟨outstanding_event (by decide) (by decide) h.actions, h.fired⟩

theorem Tracked.manageEvent (h : Tracked m) (f : Frame) : Tracked (manageEvent f m) := by
  have hclosed : Tracked (if m.event && closesEvent f m then Analysis.closeEvent m else m) := by
    split
    · exact h.closeEvent
    · exact h
  unfold Analysis.manageEvent
  dsimp only
  generalize (if m.event && closesEvent f m then Analysis.closeEvent m else m) = r at hclosed ⊢
  split
  · exact hclosed.openEvent f.eventStart
  · exact hclosed

theorem Tracked.countImage (h : Tracked m) (f : Frame) : Tracked (countImage f m) := by
  unfold Analysis.countImage
  split
  · exact ⟨h.actions, h.fired⟩
  · exact h

theorem Tracked.scored (h : Tracked m) : Tracked (scored m) := by
  unfold Analysis.scored
  dsimp only
  generalize hr : (if m.state = .idle ∨ m.state = .prealarm then _ else _) = r
  have hmoved : Tracked r := by
    rw [← hr]
    split
    · next hquiet =>
      have hfired : m.alarmActionsFired = false := by
        rw [Bool.eq_false_iff]
        intro hfired
        rcases h.fired.mp hfired with hstate | hstate <;> rw [hstate] at hquiet <;>
          exact absurd hquiet (by decide)
      have hclosed : outstanding m = some false := by rw [h.actions, hfired]
      split
      · exact ⟨brackets_start hclosed, ⟨fun _ ↦ .inl rfl, fun _ ↦ rfl⟩⟩
      split
      · refine ⟨h.actions, ⟨fun hopen ↦ ?_, nofun⟩⟩
        have hopen : m.alarmActionsFired = true := hopen
        rw [hfired] at hopen
        contradiction
      · exact ⟨h.actions, h.fired⟩
    · split
      · next halert =>
        have hfired : m.alarmActionsFired = true := h.fired.mpr (.inr halert)
        split
        · exact ⟨h.actions, ⟨fun _ ↦ .inl rfl, fun _ ↦ hfired⟩⟩
        · exact ⟨h.actions, h.fired⟩
      · exact h
  split
  · exact ⟨hmoved.actions, hmoved.fired⟩
  · exact hmoved

theorem Tracked.unscored (h : Tracked m) : Tracked (unscored m) := by
  have halarm (hstate : m.alarmed) := h.fired.mpr hstate
  unfold Analysis.unscored
  dsimp only
  generalize hr : (if m.state = .alarm then _ else _) = r
  have hmoved : Tracked r := by
    rw [← hr]
    split
    · next hstate => exact ⟨h.actions, ⟨fun _ ↦ .inr rfl, fun _ ↦ halarm (.inl hstate)⟩⟩
    split
    · split
      · exact tracked_endAlarmActions h.actions
      · exact ⟨h.actions, h.fired⟩
    split
    · next hstate =>
      refine ⟨h.actions, ⟨fun hopen ↦ ?_, nofun⟩⟩
      rcases h.fired.mp hopen with halarm | halert
      · rw [halarm] at hstate
        contradiction
      · rw [halert] at hstate
        contradiction
    · exact ⟨h.actions, h.fired⟩
  exact ⟨hmoved.actions, hmoved.fired⟩

theorem Tracked.analyse (h : Tracked m) (f : Frame) : Tracked (analyse f m) := by
  have hseen : Tracked { m with lastSignal := f.signal } := ⟨h.actions, h.fired⟩
  have hended (m : Monitor) (h : Tracked m) : Tracked (endAlarmActions (setState .idle m)) :=
    tracked_endAlarmActions h.actions
  unfold Analysis.analyse
  dsimp only
  split
  · exact (hended _ hseen.closeEvent).countImage f
  · generalize hr : (if f.signal ≠ m.lastSignal then _ else _) = r
    have hchanged : Tracked r := by
      rw [← hr]
      split
      · split
        · exact hended _ hseen
        · exact hended _ hseen.closeEvent
      · exact hseen
    split
    · split
      · exact hchanged
      · refine Tracked.countImage (Tracked.manageEvent ?_ f) f
        split
        · exact hchanged.scored
        split
        · exact hchanged.unscored
        · exact hchanged
    · exact hchanged.countImage f

/-- Load drops the alarm, and with it the ALARM_END it owes. -/
theorem outstanding_load (h : outstanding m = some m.alarmActionsFired) (row : Settings)
    (configured : String) :
    outstanding (load row configured m) = some m.alarmActionsFired := h

theorem Tracked.load (h : Tracked m) (hquiet : ¬m.alarmed) (row : Settings) (configured : String) :
    Tracked (load row configured m) :=
  ⟨h.actions, ⟨fun hfired ↦ absurd (h.fired.mp hfired) hquiet, nofun⟩⟩

/-- The configuration is read anew. -/
def Op.Loads : Op → Prop
  | .analyse _ | .reload none _ => False
  | .load _ _ | .reload (some _) _ => True

theorem Tracked.step (h : Tracked m) {op : Op} (hop : op.Loads → ¬m.alarmed) :
    Tracked (step m op) := by
  cases op with
  | analyse f => exact h.analyse f
  | load row configured => exact h.load (hop trivial) row configured
  | reload row configured =>
    cases row with
    | none => exact h.closeEvent
    | some row =>
      refine h.closeEvent.load ?_ row configured
      rw [Monitor.alarmed, (closeEvent_frame m).2]
      exact hop trivial

theorem not_bracketed_step (h : Tracked m) {op : Op} (hop : op.Loads) (halarm : m.alarmed) :
    ¬Bracketed (step m op) := by
  have hfired : m.alarmActionsFired = true := h.fired.mpr halarm
  have hidle : (Analysis.step m op).state = .idle ∧
      outstanding (Analysis.step m op) = some m.alarmActionsFired := by
    cases op with
    | analyse => exact hop.elim
    | load row configured => exact ⟨rfl, outstanding_load h.actions row configured⟩
    | reload row configured =>
      cases row with
      | none => exact hop.elim
      | some row => exact ⟨rfl, closeEvent_actions h.actions⟩
  rintro ⟨isOpen, hopen, hstate⟩
  rw [hidle.2, hfired, hstate (.inl hidle.1)] at hopen
  contradiction

theorem tracked_init : Tracked {} := ⟨rfl, ⟨nofun, nofun⟩⟩

/-- No configuration is read during an alarm. -/
def LoadsQuietly (ops : List Op) : Prop :=
  ∀ before op, before ++ [op] <+: ops → op.Loads → ¬(run before).alarmed

theorem run_snoc (ops : List Op) (op : Op) : run (ops ++ [op]) = step (run ops) op :=
  List.foldl_append

theorem loadsQuietly_snoc {ops : List Op} {op : Op} :
    LoadsQuietly (ops ++ [op]) ↔ LoadsQuietly ops ∧ (op.Loads → ¬(run ops).alarmed) :=
  along_concat

theorem tracked_run {ops : List Op} (h : LoadsQuietly ops) : Tracked (run ops) := by
  induction ops using List.reverseRecOn with
  | nil => exact tracked_init
  | append_singleton ops op ih =>
    obtain ⟨hops, hop⟩ := loadsQuietly_snoc.mp h
    rw [run_snoc]
    exact (ih hops).step hop

/-- The alarm actions are bracketed in every state of a run exactly if no configuration is
read during an alarm. -/
theorem actions_bracketed_iff (ops : List Op) :
    (∀ before, before <+: ops → Bracketed (run before)) ↔ LoadsQuietly ops := by
  constructor
  · intro hall
    induction ops using List.reverseRecOn with
    | nil => exact along_nil
    | append_singleton ops last ih =>
      have hops := ih fun before hbefore ↦ hall before (hbefore.trans (List.prefix_append _ _))
      refine loadsQuietly_snoc.mpr ⟨hops, fun hop halarm ↦ ?_⟩
      have hbroken := hall _ (List.prefix_refl _)
      rw [run_snoc] at hbroken
      exact not_bracketed_step (tracked_run hops) hop halarm hbroken
  · intro h before hbefore
    have hquiet : LoadsQuietly before := Along.of_prefix h hbefore
    exact (tracked_run hquiet).bracketed

/-- A monitor reloaded while its alarm lasts: it is idle with the ALARM_END still owed, and
the next alarmed frame runs the ALARM actions a second time. -/
theorem reload_forgets_alarm_end :
    ¬Bracketed (run [.load {} "", .analyse { triggerState := .on, triggerScore := 10 },
      .reload (some {}) ""]) ∧
    (run [.load {} "", .analyse { triggerState := .on, triggerScore := 10 },
      .reload (some {}) "", .analyse { triggerState := .on, triggerScore := 10 }]).actions =
        [.alarm, .alarm] := by
  refine ⟨?_, rfl⟩
  rintro ⟨isOpen, hopen, hstate⟩
  rw [hstate (.inl rfl)] at hopen
  exact absurd hopen (by decide)

end ZoneMinder.Analysis
