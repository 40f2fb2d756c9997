import ZoneMinder.Lib.Run
import ZoneMinder.Onvif.Alarms

namespace ZoneMinder.Onvif

open Lib AlarmLatch

structure Config where
  alarmTxt : Text
  expireAlarmsEnabled : Bool

/-- A message that cannot be parsed is `none`. -/
structure PullMessagesResponse where
  terminationTime : ℤ
  currentTime : ℤ
  messages : List (Option Message)
  deriving DecidableEq

/-- What the polling thread still has to do under its mutex. -/
inductive Work
  | message (termination : Option Time) (m : Option Message)
  | sweep (ifAny : Bool)

structure State where
  alarms : Alarms
  latch : AlarmLatch
  clockOffset : ℤ
  work : List Work
  /-- what is left to be stored for the message or the sweep that was taken last -/
  stores : List Store

/-- `poll` is one more store of the polling thread, or its next message or sweep. The analysis
thread takes no mutex: `observe` may come anywhere. -/
inductive Op
  | response (r : PullMessagesResponse) (now : Time)
  | timeout
  | renewed (clockOffset : ℤ)
  | poll (now : Time)
  | observe
  deriving DecidableEq

variable (cfg : Config)

def State.handle (s : State) (now : Time) : Work → Alarms × List Store
  | .message _ none => (s.alarms, [])
  | .message termination (some m) =>
    handleMessage s.alarms s.latch.active termination cfg.alarmTxt m
  | .sweep ifAny =>
    if ifAny = true ∧ s.alarms.alarms = [] then (s.alarms, []) else expireStaleAlarms s.alarms now

def PullMessagesResponse.work (r : PullMessagesResponse) (termination : Option Time) : List Work :=
  r.messages.map (Work.message termination) ++
    if cfg.expireAlarmsEnabled then [.sweep true] else []

def State.idle (s : State) : Bool := s.work.isEmpty && s.stores.isEmpty

def step (s : State) : Op → Option State
  | .response r now =>
    let t := alarmTermination r.terminationTime r.currentTime now s.clockOffset
    if s.idle then some { s with clockOffset := t.2, work := r.work cfg t.1 } else none
  | .timeout =>
    if s.idle then
      some { s with work := if cfg.expireAlarmsEnabled then [.sweep false] else [] }
    else none
  | .renewed clockOffset => if s.idle then some { s with clockOffset := clockOffset } else none
  | .poll now =>
    match s.stores, s.work with
    | store :: stores, _ => some { s with latch := s.latch.store store, stores := stores }
    | [], work :: rest =>
      let r := s.handle cfg now work
      some { s with alarms := r.1, stores := r.2, work := rest }
    | [], [] => none
  | .observe => some { s with latch := s.latch.observe }

def init : State where
  alarms := ⟨[], [], [], [], [], false⟩
  latch := ⟨false, false⟩
  clockOffset := 0
  work := []
  stores := []

/-- The level agrees with the alarms, once the stores that are left are made. -/
inductive Agrees (s : State) : Prop
  | settled : Settled s.latch.active (s.alarms, s.stores) → Agrees s
  | raising : s.stores = [.pending true] → s.latch.active = true → s.alarms.alarms ≠ [] → Agrees s

variable {cfg} {s t u : State} {op : Op}

theorem settled_handle (h : s.latch.active = true ↔ s.alarms.alarms ≠ []) (now : Time)
    (work : Work) : Settled s.latch.active (s.handle cfg now work) := by
  cases work with
  | message termination m =>
    cases m with
    | none => exact .same h
    | some m => exact settled_handleMessage h termination cfg.alarmTxt m
  | sweep ifAny =>
    rw [State.handle]
    split_ifs
    · exact .same h
    · exact settled_expireStaleAlarms h now

theorem Agrees.active_iff (h : Agrees s) (hs : s.stores = []) :
    s.latch.active = true ↔ s.alarms.alarms ≠ [] := by
  cases h with
  | settled h =>
    rw [hs] at h
    cases h with
    | same h => exact h
  | raising hraising => rw [hraising] at hs; cases hs

theorem Agrees.of_same (h : Agrees s) (halarms : t.alarms = s.alarms)
    (hactive : t.latch.active = s.latch.active) (hstores : t.stores = s.stores) : Agrees t := by
  cases h with
  | settled h => exact .settled (by rw [halarms, hactive, hstores]; exact h)
  | raising h h' h'' =>
    rw [← halarms] at h''
    exact .raising (hstores.trans h) (hactive.trans h') h''

theorem Agrees.store (h : Agrees s) {store : Store} {stores : List Store}
    (hs : s.stores = store :: stores) :
    Agrees { s with latch := s.latch.store store, stores := stores } := by
  cases h with
  | settled h =>
    rw [hs] at h
    cases h with
    | cleared hnil => exact .settled (.same ⟨(by cases ·), fun h ↦ absurd hnil h⟩)
    | raised _ hne => exact .raising rfl rfl hne
  | raising hraising hactive hne =>
    rw [hs] at hraising
    obtain ⟨rfl, rfl⟩ := List.cons.inj hraising
    exact .settled (.same ⟨fun _ ↦ hne, fun _ ↦ hactive⟩)

theorem step_cases (h : step cfg s op = some t) :
    (t.alarms = s.alarms ∧ t.latch.active = s.latch.active ∧ t.stores = s.stores ∧
      (t.latch = s.latch ∨ op = .observe)) ∨
    (∃ store stores, s.stores = store :: stores ∧
      t = { s with latch := s.latch.store store, stores := stores }) ∨
    ∃ now work rest, s.stores = [] ∧ t = { s with
      alarms := (s.handle cfg now work).1, stores := (s.handle cfg now work).2, work := rest } := by
  cases op with
  | response r now =>
    obtain ⟨-, h⟩ := Option.ite_none_right_eq_some.mp h
    obtain rfl := Option.some.inj h
    exact .inl ⟨rfl, rfl, rfl, .inl rfl⟩
  | timeout =>
    obtain ⟨-, h⟩ := Option.ite_none_right_eq_some.mp h
    obtain rfl := Option.some.inj h
    exact .inl ⟨rfl, rfl, rfl, .inl rfl⟩
  | renewed clockOffset =>
    obtain ⟨-, h⟩ := Option.ite_none_right_eq_some.mp h
    obtain rfl := Option.some.inj h
    exact .inl ⟨rfl, rfl, rfl, .inl rfl⟩
  | poll now =>
    right
    rw [step] at h
    split at h
    · rename_i store stores hstores
      obtain rfl := Option.some.inj h
      exact .inl ⟨store, stores, hstores, rfl⟩
    · rename_i work rest hstores hwork
      obtain rfl := Option.some.inj h
      exact .inr ⟨now, work, rest, hstores, rfl⟩
    · cases h
  | observe =>
    obtain rfl := Option.some.inj h
    exact .inl ⟨rfl, rfl, rfl, .inr rfl⟩

theorem Agrees.step (h : Agrees s) (hstep : step cfg s op = some t) : Agrees t := by
  rcases step_cases hstep with ⟨halarms, hactive, hstores, -⟩ | ⟨store, stores, hs, rfl⟩ |
    ⟨now, work, rest, hs, rfl⟩
  · exact h.of_same halarms hactive hstores
  · exact h.store hs
  · exact .settled (settled_handle (h.active_iff hs) now work)

theorem agrees_of_reachable (h : Reachable (Onvif.step cfg) init s) : Agrees s := by
  obtain ⟨as, hrun⟩ := h
  refine hrun.invariant (fun s op t hs _ hstep ↦ hs.step hstep) ?_
  exact .settled (.same ⟨(by cases ·), fun h ↦ absurd rfl h⟩)

/-- The alarm is pending, or will be with the next store. -/
def Reported (s : State) : Prop :=
  s.latch.pending = true ∨ s.latch.active = true ∧ s.stores = [.pending true]

theorem Reported.alarmed (h : Reported s) : s.latch.alarmed = true := by
  rw [AlarmLatch.alarmed, Bool.or_eq_true]
  rcases h with h | ⟨h, -⟩
  · exact .inr h
  · exact .inl h

theorem Agrees.stores_cases (h : Agrees s) :
    s.stores = [] ∨ s.stores = clear ∨ s.stores = raise ∨ s.stores = [.pending true] := by
  cases h with
  | settled h =>
    generalize hr : (s.alarms, s.stores) = r at h
    cases h with
    | same _ => exact .inl (Prod.mk.inj hr).2
    | cleared _ => exact .inr (.inl (Prod.mk.inj hr).2)
    | raised _ _ => exact .inr (.inr (.inl (Prod.mk.inj hr).2))
  | raising h _ _ => exact .inr (.inr (.inr h))

theorem Agrees.reported_step (ha : Agrees s) (h : Reported s) (hop : op ≠ .observe)
    (hstep : Onvif.step cfg s op = some t) : Reported t := by
  rcases step_cases hstep with ⟨-, hactive, hstores, hlatch⟩ | ⟨store, stores, hs, rfl⟩ |
    ⟨now, work, rest, hs, rfl⟩
  · rw [Reported, hlatch.resolve_right hop, hstores]
    exact h
  · left
    rcases ha.stores_cases with h' | h' | h' | h'
    · rw [h'] at hs
      cases hs
    all_goals
      rw [h'] at hs
      obtain ⟨rfl, rfl⟩ := List.cons.inj hs
    · exact h.resolve_right fun h ↦ by rw [h'] at h; cases h.2
    · exact h.resolve_right fun h ↦ by rw [h'] at h; cases h.2
    · rfl
  · refine .inl (h.resolve_right fun h ↦ ?_)
    rw [hs] at h
    cases h.2

/-- Where the level goes up, the store that makes the alarm pending is next. -/
theorem Agrees.reported_of_raised (ha : Agrees s) (hs : s.latch.active = false)
    (hstep : Onvif.step cfg s op = some t) (ht : t.latch.active = true) : Reported t := by
  have hsame : t.latch.active ≠ s.latch.active := by
    rw [hs, ht]
    decide
  rcases step_cases hstep with ⟨-, hactive, -⟩ | ⟨store, stores, hstores, rfl⟩ | ⟨_, _, _, _, rfl⟩
  · exact absurd hactive hsame
  · rcases ha.stores_cases with h' | h' | h' | h'
    · rw [h'] at hstores
      cases hstores
    all_goals
      rw [h'] at hstores
      obtain ⟨rfl, rfl⟩ := List.cons.inj hstores
    · cases ht
    · exact .inr ⟨rfl, rfl⟩
    · exact absurd rfl hsame
  · exact absurd rfl hsame

theorem reported_run {as : List Op} (ha : Agrees t) (h : Reported t)
    (hrun : Run (Onvif.step cfg) (fun _ op ↦ op ≠ .observe) t as u) : Reported u := by
  have hboth : Agrees u ∧ Reported u := by
    refine hrun.invariant (I := fun s ↦ Agrees s ∧ Reported s) ?_ ⟨ha, h⟩
    intro s op t hs hop hstep
    exact ⟨hs.1.step hstep, hs.1.reported_step hs.2 hop hstep⟩
  exact hboth.2

/-- After every message and every sweep the alarm is active exactly when there are alarms, and once
it has gone up it is reported until the analysis thread observes it. -/
theorem alarm_agrees (hs : Reachable (Onvif.step cfg) init s) :
    (s.stores = [] → (s.latch.active = true ↔ s.alarms.alarms ≠ [])) ∧
    ∀ op t, s.latch.active = false → Onvif.step cfg s op = some t → t.latch.active = true →
      ∀ as u, Run (Onvif.step cfg) (fun _ op ↦ op ≠ .observe) t as u →
        u.latch.alarmed = true := by
  have ha := agrees_of_reachable hs
  refine ⟨fun hstores ↦ ha.active_iff hstores, ?_⟩
  intro op t hinactive hstep hactive as u hrun
  exact (reported_run (ha.step hstep) (ha.reported_of_raised hinactive hstep hactive) hrun).alarmed

def message (value : String) : Option Message :=
  some ⟨"tns1:AudioAnalytics/DetectedSound".toList, value.toList, "Changed".toList⟩

/-- A sound comes and goes within one response, and the alarm is down before it is observed. -/
theorem alarm_agrees_pulse : ∃ s t u : State,
    s.latch.alarmed = false ∧ t.latch.active = true ∧ u.latch.active = false ∧
      (u.latch.active = true ↔ u.alarms.alarms ≠ []) ∧ u.latch.alarmed = true := by
  let cfg : Config := ⟨[], true⟩
  obtain ⟨s, hs, hq⟩ := Run.exists_of_any (Onvif.step cfg) (fun _ _ ↦ True) init
    [.response ⟨0, 0, [message "true", message "false"]⟩ 5, .poll 5]
    (fun s ↦ s.latch = ⟨false, false⟩ && (Onvif.step cfg s (.poll 5)).any fun t ↦
      t.latch.active && ([Op.poll 5, .poll 5, .poll 5].foldlM
        (fun s op ↦ if op ≠ .observe then Onvif.step cfg s op else none) t).any
          fun u ↦ u.stores = [] && !u.latch.active) (by decide)
  obtain ⟨hlatch, hq⟩ := (Bool.and_eq_true _ _).mp hq
  obtain ⟨t, ht, hq⟩ := (Option.any_eq_true _ _).mp hq
  obtain ⟨hactive, hq⟩ := (Bool.and_eq_true _ _).mp hq
  obtain ⟨u, hu, hq⟩ := (Option.any_eq_true _ _).mp hq
  simp only [Bool.and_eq_true, decide_eq_true_eq, Bool.not_eq_true'] at hlatch hq
  have hrun := Run.of_foldlM hu
  have hst := Run.one (P := fun _ _ ↦ True) trivial ht
  have hu' := (hs.trans hst).trans (hrun.mono fun _ _ _ ↦ trivial)
  have hinactive : s.latch.active = false := by rw [hlatch]
  refine ⟨s, t, u, by rw [hlatch]; rfl, hactive, hq.2, (alarm_agrees ⟨_, hu'⟩).1 hq.1, ?_⟩
  exact (alarm_agrees ⟨_, hs⟩).2 _ t hinactive ht hactive _ u hrun

end ZoneMinder.Onvif
