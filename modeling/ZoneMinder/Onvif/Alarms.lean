import Mathlib.Algebra.Order.Ring.Int
import Mathlib.Data.List.Infix

namespace ZoneMinder.Onvif

abbrev Text := List Char

structure AlarmLatch where
  active : Bool
  pending : Bool
  deriving DecidableEq

namespace AlarmLatch

/-- Each of the two flags is stored by itself, and another thread may come in between. -/
inductive Store
  | active (value : Bool)
  | pending (value : Bool)
  deriving DecidableEq

def store (latch : AlarmLatch) : Store → AlarmLatch
  | .active value => { latch with active := value }
  | .pending value => { latch with pending := value }

def raise : List Store := [.active true, .pending true]

def clear : List Store := [.active false]

def observe (latch : AlarmLatch) : AlarmLatch := latch.store (.pending false)

def alarmed (latch : AlarmLatch) : Bool := latch.active || latch.pending

end AlarmLatch

open AlarmLatch

/-- A time in nanoseconds from the epoch; the epoch itself is no time. -/
abbrev Time := ℤ

structure AlarmEntry where
  value : Text
  terminationTime : Time
  deriving DecidableEq

abbrev Table := List (Text × AlarmEntry)

def Table.erase (alarms : Table) (topic : Text) : Table := alarms.filter (fun e ↦ e.1 ≠ topic)

def Table.count (alarms : Table) (topic : Text) : ℕ := alarms.countP (fun e ↦ e.1 = topic)

def Table.find (alarms : Table) (topic : Text) : Option AlarmEntry :=
  (alarms.find? (fun e ↦ e.1 = topic)).map Prod.snd

def Table.set (alarms : Table) (topic : Text) (entry : AlarmEntry) : Table :=
  (topic, entry) :: alarms.erase topic

/-- What the polling thread keeps about alarms, under its mutex. -/
structure Alarms where
  alarms : Table
  lastTopic : Text
  lastValue : Text
  lastAlarmTopic : Text
  lastAlarmValue : Text
  closesEvent : Bool
  deriving DecidableEq

/-- A notification as `parse_event_message` reads it. -/
structure Message where
  topic : Text
  value : Text
  operation : Text
  deriving DecidableEq

def inactiveValues : List Text :=
  ["false", "inactive", "off", "no", "idle", "normal", "closed"].map String.toList

/-- Whether a value stands for an active alarm; a number does unless it is zero. -/
def interpretAlarmValue (value : Text) : Bool :=
  !(value = [] || inactiveValues.contains (value.map Char.toLower) || value.all (· = '0'))

/-- `std::string::find` of a part. -/
def contains (text part : Text) : Bool := part <:+: text

def matchesParts : List Text → List Text → Bool
  | _, [] => true
  | [], _ :: _ => false
  | topicPart :: topic, filterPart :: filter =>
    if filterPart = ['*'] then matchesParts topic filter
    else if filterPart = ['*', '*'] then true
    else if filterPart.getLast? = some '*' then
      filterPart.dropLast <+: topicPart && matchesParts topic filter
    else contains topicPart filterPart && matchesParts topic filter

def matchesTopicFilter (topic filter : Text) : Bool :=
  filter = [] || contains topic filter || matchesParts (topic.splitOn '/') (filter.splitOn '/')

/-- Seconds and nanoseconds are kept in 64 bits, and wrap. -/
def toInt64 (n : ℤ) : ℤ := n.bmod (2 ^ 64)

/-- When the alarms of a response end, and how far our clock is ahead of the camera's. A time of
the camera that is zero was not given. -/
def alarmTermination (terminationTime cameraTime : ℤ) (now : Time) (clockOffset : ℤ) :
    Option Time × ℤ :=
  if terminationTime = 0 then (none, clockOffset)
  else
    let clockOffset :=
      if cameraTime = 0 then clockOffset else toInt64 (now.tdiv (10 ^ 9) - cameraTime)
    let adjusted := toInt64 (toInt64 (terminationTime + clockOffset) * 10 ^ 9)
    (if adjusted ≤ now then none else some adjusted, clockOffset)

/-- The end of the year 9999 is taken for a time that is over. -/
example : (alarmTermination 253402300799 0 0 0).1 = none := by decide

section Handle

variable (a : Alarms) (active : Bool) (termination : Option Time) (topic value : Text)

/-- A response's time of termination, else that of the entry. -/
def entryTermination : Time :=
  termination.getD (((a.alarms.find topic).map AlarmEntry.terminationTime).getD 0)

def eraseAlarm : Alarms × List Store :=
  let alarms := a.alarms.erase topic
  ({ a with alarms := alarms }, if alarms = [] then clear else [])

def setAlarm : Alarms :=
  { a with
    alarms := a.alarms.set topic ⟨value, entryTermination a termination topic⟩
    lastAlarmTopic := topic
    lastAlarmValue := value }

/-- A new alarm raises the level where it is down. -/
def addAlarm : Alarms × List Store :=
  (setAlarm a termination topic value, if active then [] else raise)

/-- What an active value does in a message that is not `Initialized`. -/
def alarmOn : Alarms × List Store :=
  if a.alarms.count topic = 0 then addAlarm a active termination topic value
  else (setAlarm a termination topic value, [])

def handleDeleted : Alarms × List Store := eraseAlarm { a with closesEvent := true } topic

def handleInitialized : Alarms × List Store :=
  let a := { a with closesEvent := true }
  if interpretAlarmValue value ∧ a.alarms.count topic = 0 then
    addAlarm a active termination topic value
  else if ¬interpretAlarmValue value ∧ 0 < a.alarms.count topic then eraseAlarm a topic
  else (a, [])

def handleChanged : Alarms × List Store :=
  if interpretAlarmValue value then alarmOn a active termination topic value
  else eraseAlarm { a with closesEvent := true } topic

def handleUnknown : Alarms × List Store :=
  if interpretAlarmValue value then alarmOn a active termination topic value
  else eraseAlarm a topic

/-- One round of the loop over the messages. `active` is the level when the message comes up. -/
def handleMessage (filter : Text) (m : Message) : Alarms × List Store :=
  if matchesTopicFilter m.topic filter then
    let a := { a with lastTopic := m.topic, lastValue := m.value }
    if m.operation = "Deleted".toList then handleDeleted a m.topic
    else if m.operation = "Initialized".toList then
      handleInitialized a active termination m.topic m.value
    else if m.operation = "Changed".toList then
      handleChanged a active termination m.topic m.value
    else handleUnknown a active termination m.topic m.value
  else (a, [])

def expireStaleAlarms (now : Time) : Alarms × List Store :=
  let alarms := a.alarms.filter
    (fun e ↦ e.2.terminationTime = 0 || !decide (e.2.terminationTime ≤ now))
  ({ a with alarms := alarms }, if alarms = [] then clear else [])

end Handle

/-- What one message or one sweep leaves: the alarms, and the stores that bring the level to agree
with them. -/
inductive Settled (active : Bool) : Alarms × List Store → Prop
  | same {a : Alarms} : (active = true ↔ a.alarms ≠ []) → Settled active (a, [])
  | cleared {a : Alarms} : a.alarms = [] → Settled active (a, clear)
  | raised {a : Alarms} : active = false → a.alarms ≠ [] → Settled active (a, raise)

section Settled

variable {a : Alarms} {active : Bool} (h : active = true ↔ a.alarms ≠ [])
  (termination : Option Time) (topic value : Text)
include h

theorem ne_nil_of_filter {p : Text × AlarmEntry → Bool} (hne : a.alarms.filter p ≠ []) :
    active = true := by
  apply h.mpr
  intro hnil
  rw [hnil] at hne
  exact hne rfl

theorem settled_eraseAlarm : Settled active (eraseAlarm a topic) := by
  rw [eraseAlarm]
  split_ifs with hnil
  · exact .cleared hnil
  · exact .same ⟨fun _ ↦ hnil, fun hne ↦ ne_nil_of_filter h hne⟩

theorem settled_expireStaleAlarms (now : Time) : Settled active (expireStaleAlarms a now) := by
  rw [expireStaleAlarms]
  split_ifs with hnil
  · exact .cleared hnil
  · exact .same ⟨fun _ ↦ hnil, fun hne ↦ ne_nil_of_filter h hne⟩

omit h in
theorem settled_addAlarm (a : Alarms) (active : Bool) :
    Settled active (addAlarm a active termination topic value) := by
  have hne : (setAlarm a termination topic value).alarms ≠ [] := List.cons_ne_nil _ _
  cases active with
  | true => exact .same ⟨fun _ ↦ hne, fun _ ↦ rfl⟩
  | false => exact .raised rfl hne

theorem settled_alarmOn : Settled active (alarmOn a active termination topic value) := by
  rw [alarmOn]
  split_ifs with hcount
  · exact settled_addAlarm _ _ _ a active
  · have hne : a.alarms ≠ [] := by
      intro hnil
      rw [hnil] at hcount
      exact hcount rfl
    exact .same ⟨fun _ ↦ List.cons_ne_nil _ _, fun _ ↦ h.mpr hne⟩

theorem settled_handleInitialized :
    Settled active (handleInitialized a active termination topic value) := by
  rw [handleInitialized]
  split_ifs
  · exact settled_addAlarm _ _ _ _ active
  · exact @settled_eraseAlarm { a with closesEvent := true } active h topic
  · exact .same h

theorem settled_handleChanged :
    Settled active (handleChanged a active termination topic value) := by
  rw [handleChanged]
  split_ifs
  · exact settled_alarmOn h _ _ _
  · exact @settled_eraseAlarm { a with closesEvent := true } active h topic

theorem settled_handleUnknown :
    Settled active (handleUnknown a active termination topic value) := by
  rw [handleUnknown]
  split_ifs
  · exact settled_alarmOn h _ _ _
  · exact settled_eraseAlarm h _

/-- Every message leaves what it did to the alarms and to the level in agreement. -/
theorem settled_handleMessage (filter : Text) (m : Message) :
    Settled active (handleMessage a active termination filter m) := by
  rw [handleMessage]
  have h' : active = true ↔
      ({ a with lastTopic := m.topic, lastValue := m.value } : Alarms).alarms ≠ [] := h
  split_ifs
  · exact @settled_eraseAlarm { a with
      lastTopic := m.topic, lastValue := m.value, closesEvent := true } active h m.topic
  · exact settled_handleInitialized h' _ _ _
  · exact settled_handleChanged h' _ _ _
  · exact settled_handleUnknown h' _ _ _
  · exact .same h

end Settled

end ZoneMinder.Onvif
