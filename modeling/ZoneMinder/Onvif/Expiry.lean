import ZoneMinder.Onvif.Polling

namespace ZoneMinder.Onvif

open Lib

/-- The topics that were reported active and not inactive since, each with the time of termination
of the latest report that had one. -/
abbrev Due := Text → Option (Option Time)

namespace Due

def active (due : Due) (topic : Text) (termination : Option Time) : Due :=
  fun other ↦ if other = topic then some (termination <|> (due topic).join) else due other

def inactive (due : Due) (topic : Text) : Due :=
  fun other ↦ if other = topic then none else due other

/-- What is due goes; a topic without a time stays. -/
def sweep (due : Due) (now : Time) : Due :=
  fun topic ↦ (due topic).filter fun t ↦ !t.any (· ≤ now)

/-- A message reports its topic active by its value, whatever its operation but `Deleted`. -/
def message (due : Due) (filter : Text) (termination : Option Time) (m : Message) : Due :=
  if matchesTopicFilter m.topic filter then
    if m.operation ≠ "Deleted".toList ∧ interpretAlarmValue m.value then
      due.active m.topic termination
    else due.inactive m.topic
  else due

/-- All messages of a response have the time that it has. -/
def work (cfg : Config) (due : Due) (termination : Option Time) (now : Time) : Work → Due
  | .message _ none => due
  | .message _ (some m) => due.message cfg.alarmTxt termination m
  | .sweep _ => due.sweep now

end Due

/-- How far our clock is ahead of the camera's after a response. -/
def PullMessagesResponse.offset (r : PullMessagesResponse) (now : Time) (clockOffset : ℤ) : ℤ :=
  if r.currentTime = 0 then clockOffset else now.tdiv (10 ^ 9) - r.currentTime

/-- When the alarms of a response end by our clock, where that is a time to come. -/
def PullMessagesResponse.termination (r : PullMessagesResponse) (now : Time) (clockOffset : ℤ) :
    Option Time :=
  if r.terminationTime = 0 then none
  else
    let due := (r.terminationTime + r.offset now clockOffset) * 10 ^ 9
    if due ≤ now then none else some due

/-- The message or the sweep that an operation takes up. -/
def State.taken (s : State) : Op → Option (Time × Work)
  | .poll now => if s.stores = [] then s.work.head?.map fun work ↦ (now, work) else none
  | _ => none

def Op.received : Op → Option (PullMessagesResponse × Time)
  | .response r now => some (r, now)
  | _ => none

/-- The polling thread with what its reports are to lead to, and the time of the last response. -/
structure Watched where
  state : State
  termination : Option Time
  due : Due

variable (cfg : Config)

def watch (w : Watched) (op : Op) : Option Watched :=
  (step cfg w.state op).map fun t ↦
    ⟨t, op.received.elim w.termination fun r ↦ r.1.termination r.2 w.state.clockOffset,
      (w.state.taken op).elim w.due fun taken ↦ w.due.work cfg w.termination taken.1 taken.2⟩

def State.Held (s : State) (topic : Text) : Prop := ∃ e ∈ s.alarms.alarms, e.1 = topic

def InInt64 (n : ℤ) : Prop := -2 ^ 63 ≤ n ∧ n < 2 ^ 63

instance (n : ℤ) : Decidable (InInt64 n) := inferInstanceAs (Decidable (_ ∧ _))

/-- The time of the response can be told in nanoseconds. -/
def PullMessagesResponse.Tells (r : PullMessagesResponse) (now : Time) (clockOffset : ℤ) : Prop :=
  r.terminationTime ≠ 0 → InInt64 (r.offset now clockOffset) ∧
    InInt64 ((r.terminationTime + r.offset now clockOffset) * 10 ^ 9)

instance (r : PullMessagesResponse) (now : Time) (clockOffset : ℤ) :
    Decidable (r.Tells now clockOffset) :=
  inferInstanceAs (Decidable (_ → _))

/-- An `Initialized` message that tells another time of an alarm that is known. -/
def Work.PassedOver (due : Due) : Work → Prop
  | .message (some T) (some m) =>
    matchesTopicFilter m.topic cfg.alarmTxt = true ∧ m.operation = "Initialized".toList ∧
      interpretAlarmValue m.value = true ∧ due m.topic ≠ none ∧ due m.topic ≠ some (some T)
  | _ => False

instance (due : Due) (work : Work) : Decidable (work.PassedOver cfg due) :=
  match work with
  | .message (some _) (some _) => inferInstanceAs (Decidable (_ ∧ _))
  | .message (some _) none => inferInstanceAs (Decidable False)
  | .message none _ => inferInstanceAs (Decidable False)
  | .sweep _ => inferInstanceAs (Decidable False)

/-- The clock has passed the epoch, the time of a response can be told, and no message is passed
over. -/
structure Prompt (w : Watched) (op : Op) : Prop where
  clock : ∀ r ∈ op.received, 0 ≤ r.2
  tells : ∀ r ∈ op.received, r.1.Tells r.2 w.state.clockOffset
  refreshed : ∀ taken ∈ w.state.taken op, ¬taken.2.PassedOver cfg w.due

instance (w : Watched) (op : Op) : Decidable (Prompt cfg w op) :=
  decidable_of_iff ((∀ r ∈ op.received, 0 ≤ r.2) ∧
    (∀ r ∈ op.received, r.1.Tells r.2 w.state.clockOffset) ∧
      ∀ taken ∈ w.state.taken op, ¬taken.2.PassedOver cfg w.due)
    ⟨fun h ↦ ⟨h.1, h.2.1, h.2.2⟩, fun h ↦ ⟨h.clock, h.tells, h.refreshed⟩⟩

/-- A time of an entry, where zero is none. -/
def givenTime (t : Time) : Option Time := if t = 0 then none else some t

/-- The entries are those that are due, at the times that they are. -/
structure Known (alarms : Table) (due : Due) : Prop where
  entry : ∀ e ∈ alarms, due e.1 = some (givenTime e.2.terminationTime)
  held : ∀ topic, due topic ≠ none → ∃ e ∈ alarms, e.1 = topic

section Known

variable {alarms : Table} {due : Due} {topic value : Text} {a : Alarms}
  {termination : Option Time}

theorem Known.count_eq_zero_iff (h : Known alarms due) (topic : Text) :
    alarms.count topic = 0 ↔ due topic = none := by
  rw [Table.count, List.countP_eq_zero]
  constructor
  · intro hnone
    by_contra hdue
    obtain ⟨e, he, htopic⟩ := h.held topic hdue
    exact hnone e he (by simpa using htopic)
  · intro hdue e he htopic
    have hentry := h.entry e he
    rw [of_decide_eq_true htopic, hdue] at hentry
    cases hentry

theorem Known.erase (h : Known alarms due) (topic : Text) :
    Known (alarms.erase topic) (due.inactive topic) where
  entry := by
    intro e he
    obtain ⟨hmem, hne⟩ := List.mem_filter.mp he
    rw [Due.inactive, if_neg (by simpa using hne)]
    exact h.entry e hmem
  held := by
    intro other hother
    rw [Due.inactive] at hother
    split_ifs at hother with htopic
    · exact absurd rfl hother
    · obtain ⟨e, he, rfl⟩ := h.held other hother
      exact ⟨e, List.mem_filter.mpr ⟨he, by simpa using htopic⟩, rfl⟩

/-- The time of an entry falls back to the one that is known. -/
theorem Known.entryTermination (h : Known a.alarms due)
    (htermination : ∀ T, termination = some T → 0 < T) (topic : Text) :
    givenTime (entryTermination a termination topic) =
      (termination <|> (due topic).join) := by
  cases termination with
  | some T =>
    exact if_neg (ne_of_gt (htermination T rfl))
  | none =>
    rw [Onvif.entryTermination, Option.getD_none, Table.find]
    cases hfind : a.alarms.find? (fun e ↦ e.1 = topic) with
    | none =>
      have hdue : due topic = none := by
        by_contra hdue
        obtain ⟨e, he, htopic⟩ := h.held topic hdue
        exact List.find?_eq_none.mp hfind e he (by simpa using htopic)
      rw [hdue]
      rfl
    | some e =>
      have htopic : e.1 = topic := by simpa using List.find?_some hfind
      have hentry := h.entry e (List.mem_of_find?_eq_some hfind)
      rw [htopic] at hentry
      rw [hentry]
      rfl

theorem Known.set (h : Known a.alarms due) (htermination : ∀ T, termination = some T → 0 < T)
    (topic value : Text) :
    Known (setAlarm a termination topic value).alarms (due.active topic termination) where
  entry := by
    intro e he
    rcases List.mem_cons.mp he with rfl | he
    · rw [Due.active, if_pos rfl, h.entryTermination htermination]
    · obtain ⟨hmem, hne⟩ := List.mem_filter.mp he
      rw [Due.active, if_neg (by simpa using hne)]
      exact h.entry e hmem
  held := by
    intro other hother
    rw [Due.active] at hother
    split_ifs at hother with htopic
    · exact ⟨_, List.mem_cons_self, htopic.symm⟩
    · obtain ⟨e, he, rfl⟩ := h.held other hother
      exact ⟨e, List.mem_cons_of_mem _ (List.mem_filter.mpr ⟨he, by simpa using htopic⟩), rfl⟩

theorem Known.alarmOn (h : Known a.alarms due) (htermination : ∀ T, termination = some T → 0 < T)
    (active : Bool) (topic value : Text) :
    Known (alarmOn a active termination topic value).1.alarms (due.active topic termination) := by
  rw [Onvif.alarmOn]
  split_ifs <;> exact h.set htermination topic value

/-- An entry that is passed over is as the report has it, where that brings no other time. -/
theorem active_of_refreshed {d : Option Time} (hdue : due topic = some d)
    (h : ∀ T, termination = some T → d = some T) : due.active topic termination = due := by
  funext other
  rw [Due.active]
  split_ifs with htopic
  · rw [htopic, hdue]
    cases termination with
    | none => rfl
    | some T => rw [h T rfl]; rfl
  · rfl

theorem inactive_of_none (hdue : due topic = none) : due.inactive topic = due := by
  funext other
  rw [Due.inactive]
  split_ifs with htopic
  · rw [htopic, hdue]
  · rfl

theorem Known.handleInitialized (h : Known a.alarms due)
    (htermination : ∀ T, termination = some T → 0 < T) (active : Bool)
    (hrefreshed : ∀ T d, termination = some T → interpretAlarmValue value = true →
      due topic = some d → d = some T) :
    Known (handleInitialized a active termination topic value).1.alarms
      (if interpretAlarmValue value then due.active topic termination
        else due.inactive topic) := by
  have hcount := h.count_eq_zero_iff topic
  rw [Onvif.handleInitialized]
  by_cases hvalue : interpretAlarmValue value = true
  · rw [if_pos hvalue]
    by_cases hdue : due topic = none
    · rw [if_pos ⟨hvalue, hcount.mpr hdue⟩]
      exact @Known.set _ { a with closesEvent := true } _ h htermination topic value
    · obtain ⟨d, hd⟩ := Option.ne_none_iff_exists'.mp hdue
      rw [if_neg fun hnew ↦ hdue (hcount.mp hnew.2), if_neg fun hold ↦ hold.1 hvalue,
        active_of_refreshed hd fun T hT ↦ hrefreshed T d hT hvalue hd]
      exact h
  · rw [if_neg hvalue, if_neg fun hnew ↦ hvalue hnew.1]
    by_cases hdue : due topic = none
    · rw [if_neg fun hold ↦ absurd (hcount.mpr hdue) (Nat.pos_iff_ne_zero.mp hold.2),
        inactive_of_none hdue]
      exact h
    · rw [if_pos ⟨hvalue, Nat.pos_iff_ne_zero.mpr fun hzero ↦ hdue (hcount.mp hzero)⟩]
      exact h.erase topic

theorem Known.handleMessage (h : Known a.alarms due)
    (htermination : ∀ T, termination = some T → 0 < T) (active : Bool) {filter : Text} {m : Message}
    (hrefreshed : ∀ T d, termination = some T → matchesTopicFilter m.topic filter = true →
      m.operation = "Initialized".toList → interpretAlarmValue m.value = true →
        due m.topic = some d → d = some T) :
    Known (handleMessage a active termination filter m).1.alarms
      (due.message filter termination m) := by
  rw [Onvif.handleMessage, Due.message]
  by_cases hfilter : matchesTopicFilter m.topic filter = true
  · rw [if_pos hfilter, if_pos hfilter]
    by_cases hdeleted : m.operation = "Deleted".toList
    · rw [if_pos hdeleted, if_neg fun hnot ↦ hnot.1 hdeleted]
      exact h.erase m.topic
    · have hreport : (m.operation ≠ "Deleted".toList ∧ interpretAlarmValue m.value = true) ↔
          interpretAlarmValue m.value = true := and_iff_right hdeleted
      simp only [if_neg hdeleted, hreport]
      by_cases hinitialized : m.operation = "Initialized".toList
      · rw [if_pos hinitialized]
        exact @Known.handleInitialized _ _ m.value
          { a with lastTopic := m.topic, lastValue := m.value } _ h htermination active
          fun T d hT hvalue hd ↦ hrefreshed T d hT hfilter hinitialized hvalue hd
      · rw [if_neg hinitialized]
        have hon := @Known.alarmOn due { a with lastTopic := m.topic, lastValue := m.value }
          termination h htermination active m.topic m.value
        rw [handleChanged, handleUnknown]
        split_ifs with hchanged hvalue
        · exact hon
        · exact h.erase m.topic
        · exact hon
        · exact h.erase m.topic
  · rw [if_neg hfilter, if_neg hfilter]
    exact h

/-- An entry stays through a sweep where its time does. -/
theorem givenTime_any (t now : Time) :
    (t = 0 || !decide (t ≤ now)) = !(givenTime t).any (· ≤ now) := by
  rw [givenTime]
  split_ifs with hzero <;> simp [hzero]

theorem Known.expire (h : Known a.alarms due) (now : Time) :
    Known (expireStaleAlarms a now).1.alarms (due.sweep now) where
  entry := by
    intro e he
    obtain ⟨hmem, hstays⟩ := List.mem_filter.mp he
    rw [givenTime_any] at hstays
    rw [Due.sweep, h.entry e hmem, Option.filter_some, if_pos hstays]
  held := by
    intro topic htopic
    rw [Due.sweep] at htopic
    obtain ⟨e, he, rfl⟩ := h.held topic (by
      intro hnone
      rw [hnone] at htopic
      exact htopic rfl)
    rw [h.entry e he, Option.filter_some] at htopic
    split_ifs at htopic with hstays
    · rw [← givenTime_any] at hstays
      exact ⟨e, List.mem_filter.mpr ⟨he, hstays⟩, rfl⟩
    · exact absurd rfl htopic

/-- Where there are no alarms a sweep has nothing to take. -/
theorem Known.sweep (h : Known a.alarms due) (now : Time) (ifAny : Bool) :
    Known (if ifAny = true ∧ a.alarms = [] then (a, []) else expireStaleAlarms a now).1.alarms
      (due.sweep now) := by
  split_ifs with hnone
  · have hswept := h.expire now
    rw [expireStaleAlarms] at hswept
    rw [hnone.2] at hswept ⊢
    exact hswept
  · exact h.expire now

end Known

section Run

variable {cfg : Config} {w v : Watched} {s t : State} {op : Op} {topic : Text} {now : Time}
  {work : Work}

/-- The messages that are still to be handled have the time of the response, which is one. -/
structure Timed (w : Watched) : Prop where
  same : ∀ termination m, .message termination m ∈ w.state.work → termination = w.termination
  positive : ∀ T, w.termination = some T → 0 < T

theorem toInt64_eq {n : ℤ} (h : InInt64 n) : toInt64 n = n := by
  obtain ⟨hlow, hhigh⟩ := h
  exact Int.bmod_eq_of_le_mul_two (by omega) (by omega)

/-- Where the time can be told, the response is given just that time. -/
theorem alarmTermination_fst {r : PullMessagesResponse} {clockOffset : ℤ}
    (h : r.Tells now clockOffset) :
    (alarmTermination r.terminationTime r.currentTime now clockOffset).1 =
      r.termination now clockOffset := by
  rw [alarmTermination, PullMessagesResponse.termination]
  by_cases hzero : r.terminationTime = 0
  · rw [if_pos hzero, if_pos hzero]
  · obtain ⟨hoffset, hdue⟩ := h hzero
    have hclock : (if r.currentTime = 0 then clockOffset
        else toInt64 (now.tdiv (10 ^ 9) - r.currentTime)) = r.offset now clockOffset := by
      rw [PullMessagesResponse.offset] at hoffset ⊢
      split_ifs with hcamera
      · rfl
      · rw [if_neg hcamera] at hoffset
        exact toInt64_eq hoffset
    have hseconds : InInt64 (r.terminationTime + r.offset now clockOffset) := by
      obtain ⟨hlow, hhigh⟩ := hdue
      exact ⟨by omega, by omega⟩
    rw [if_neg hzero, if_neg hzero]
    dsimp only
    rw [hclock, toInt64_eq hseconds, toInt64_eq hdue]

theorem termination_pos {r : PullMessagesResponse} {clockOffset : ℤ} {T : Time}
    (h : r.termination now clockOffset = some T) (hnow : 0 ≤ now) : 0 < T := by
  rw [PullMessagesResponse.termination] at h
  split_ifs at h with hzero
  simp only [Option.ite_none_left_eq_some, Option.some.injEq] at h
  obtain ⟨hlate, rfl⟩ := h
  exact lt_of_le_of_lt hnow (not_le.mp hlate)

theorem taken_eq_some (h : s.taken op = some (now, work)) :
    op = .poll now ∧ s.stores = [] ∧ ∃ rest, s.work = work :: rest := by
  cases op with
  | poll time =>
    obtain ⟨hstores, h⟩ := Option.ite_none_right_eq_some.mp h
    obtain ⟨work', hhead, heq⟩ := Option.map_eq_some_iff.mp h
    obtain ⟨rfl, rfl⟩ := Prod.mk.inj heq
    exact ⟨rfl, hstores, List.head?_eq_some_iff.mp hhead⟩
  | response => cases h
  | timeout => cases h
  | renewed => cases h
  | observe => cases h

theorem watch_eq_some (h : watch cfg w op = some v) :
    step cfg w.state op = some v.state ∧
      v.termination =
        (op.received.elim w.termination fun r ↦ r.1.termination r.2 w.state.clockOffset) ∧
      v.due =
        (w.state.taken op).elim w.due fun taken ↦ w.due.work cfg w.termination taken.1 taken.2 := by
  obtain ⟨t, ht, rfl⟩ := Option.map_eq_some_iff.mp h
  exact ⟨ht, rfl, rfl⟩

theorem Timed.of_work (h : Timed w) (hsame : v.termination = w.termination)
    (hwork : ∀ termination m, .message termination m ∈ v.state.work →
      .message termination m ∈ w.state.work) : Timed v where
  same termination m hmem := hsame ▸ h.same termination m (hwork termination m hmem)
  positive T hT := h.positive T (hsame ▸ hT)

theorem Timed.watch (h : Timed w) (hprompt : Prompt cfg w op)
    (hstep : Onvif.watch cfg w op = some v) : Timed v := by
  obtain ⟨hstate, htermination, -⟩ := watch_eq_some hstep
  cases op with
  | poll now =>
    refine h.of_work htermination ?_
    rw [step] at hstate
    split at hstate
    case h_1 =>
      rw [← Option.some.inj hstate]
      exact fun _ _ hmem ↦ hmem
    case h_2 work rest hstores hwork =>
      rw [← Option.some.inj hstate, hwork]
      exact fun _ _ hmem ↦ List.mem_cons_of_mem _ hmem
    case h_3 => cases hstate
  | response r now =>
    obtain ⟨-, hstate⟩ := Option.ite_none_right_eq_some.mp hstate
    have htells := alarmTermination_fst (hprompt.tells (r, now) rfl)
    refine ⟨fun termination m hmem ↦ ?_, fun T hT ↦ ?_⟩
    · rw [← Option.some.inj hstate] at hmem
      rw [htermination]
      rcases List.mem_append.mp hmem with hmem | hmem
      · obtain ⟨m', -, heq⟩ := List.mem_map.mp hmem
        exact (Work.message.inj heq).1.symm.trans htells
      · split_ifs at hmem <;> simp at hmem
    · rw [htermination] at hT
      exact termination_pos hT (hprompt.clock (r, now) rfl)
  | timeout =>
    obtain ⟨-, hstate⟩ := Option.ite_none_right_eq_some.mp hstate
    refine h.of_work htermination fun termination m hmem ↦ ?_
    rw [← Option.some.inj hstate] at hmem
    dsimp only at hmem
    split_ifs at hmem <;> simp at hmem
  | renewed clockOffset =>
    obtain ⟨-, hstate⟩ := Option.ite_none_right_eq_some.mp hstate
    refine h.of_work htermination ?_
    rw [← Option.some.inj hstate]
    exact fun _ _ hmem ↦ hmem
  | observe =>
    refine h.of_work htermination ?_
    rw [← Option.some.inj hstate]
    exact fun _ _ hmem ↦ hmem

theorem Known.taken (h : Known w.state.alarms.alarms w.due) (htimed : Timed w)
    (htaken : w.state.taken op = some (now, work))
    (hrefreshed : ¬work.PassedOver cfg w.due) :
    Known (w.state.handle cfg now work).1.alarms (w.due.work cfg w.termination now work) := by
  obtain ⟨-, -, rest, hwork⟩ := taken_eq_some htaken
  cases work with
  | sweep ifAny => exact h.sweep now ifAny
  | message termination m =>
    cases m with
    | none => exact h
    | some m =>
      obtain rfl := htimed.same termination (some m) (by simp [hwork])
      refine h.handleMessage htimed.positive w.state.latch.active ?_
      intro T d hT hfilter hinitialized hvalue hd
      by_contra hne
      rw [hT] at hrefreshed
      refine hrefreshed ⟨hfilter, hinitialized, hvalue, ?_, ?_⟩ <;> simp [hd, hne]

end Run

variable {cfg}

def motion (operation : String) : Option Message :=
  some ⟨"tns1:RuleEngine/CellMotionDetector/Motion".toList, "true".toList, operation.toList⟩

end ZoneMinder.Onvif
