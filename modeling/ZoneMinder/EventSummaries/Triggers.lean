import Mathlib.Data.List.Dedup
import Mathlib.Logic.Function.Basic
import ZoneMinder.Lib.Tally

namespace ZoneMinder.EventSummaries

open Lib

/-- A row of a bucket table, of `Events_Archived`, or the part of an event that they copy. -/
structure Row where
  eventId : ℕ
  monitorId : ℕ
  diskSpace : Option ℕ
  deriving DecidableEq

/-- `COALESCE(DiskSpace, 0)` -/
def Row.space (r : Row) : ℤ := r.diskSpace.getD 0

/-- `SELECT COUNT(*) FROM rows WHERE MonitorId = monitorId` -/
def countOf (rows : List Row) (monitorId : ℕ) : ℤ :=
  (rows.filter (fun r ↦ r.monitorId = monitorId)).length

/-- `SELECT SUM(COALESCE(DiskSpace, 0)) FROM rows WHERE MonitorId = monitorId` -/
def spaceOf (rows : List Row) (monitorId : ℕ) : ℤ :=
  ((rows.filter (fun r ↦ r.monitorId = monitorId)).map Row.space).sum

/-- An insertion fails where the key is taken. -/
def insertRow (rows : List Row) (r : Row) : List Row :=
  if ∃ r' ∈ rows, r'.eventId = r.eventId then rows else rows ++ [r]

def deleteRow (rows : List Row) (eventId : ℕ) : List Row :=
  rows.filter (fun r ↦ !(r.eventId = eventId))

def setDiskSpace (rows : List Row) (eventId : ℕ) (diskSpace : Option ℕ) : List Row :=
  rows.map (fun r ↦ if r.eventId = eventId then { r with diskSpace } else r)

/-- `ROW_COUNT()` after a deletion -/
def deletedRows (rows : List Row) (eventId : ℕ) : ℕ := rows.countP (fun r ↦ r.eventId = eventId)

/-- `ROW_COUNT()` after an update does not count the rows that had the value before. -/
def changedRows (rows : List Row) (eventId : ℕ) (diskSpace : Option ℕ) : ℕ :=
  rows.countP (fun r ↦ r.eventId = eventId ∧ r.diskSpace ≠ diskSpace)

theorem Row.space_nonneg (r : Row) : 0 ≤ r.space := by simp [Row.space]

theorem countOf_eq_tally (rows : List Row) (monitorId : ℕ) :
    countOf rows monitorId = tally Row.monitorId (fun _ ↦ 1) monitorId rows :=
  (tally_one Row.monitorId monitorId rows).symm

theorem spaceOf_eq_tally (rows : List Row) (monitorId : ℕ) :
    spaceOf rows monitorId = tally Row.monitorId Row.space monitorId rows := rfl

section

variable {rows rows' : List Row} {r : Row} {monitorId : ℕ}

theorem countOf_nonneg : 0 ≤ countOf rows monitorId := by simp [countOf]

theorem spaceOf_nonneg : 0 ≤ spaceOf rows monitorId := tally_nonneg Row.space_nonneg rows

@[simp]
theorem countOf_append :
    countOf (rows ++ rows') monitorId = countOf rows monitorId + countOf rows' monitorId := by
  simp [countOf]

@[simp]
theorem spaceOf_append :
    spaceOf (rows ++ rows') monitorId = spaceOf rows monitorId + spaceOf rows' monitorId := by
  simp [spaceOf]

theorem countOf_cons : countOf (r :: rows) monitorId =
    (if r.monitorId = monitorId then 1 else 0) + countOf rows monitorId := by
  simp only [countOf_eq_tally, tally_cons]

theorem spaceOf_cons : spaceOf (r :: rows) monitorId =
    (if r.monitorId = monitorId then r.space else 0) + spaceOf rows monitorId := by
  simp only [spaceOf_eq_tally, tally_cons]

theorem countOf_filter_le (p : Row → Bool) :
    countOf (rows.filter p) monitorId ≤ countOf rows monitorId := by
  simp only [countOf_eq_tally]
  exact tally_filter_le (fun _ ↦ by decide) p rows

theorem spaceOf_filter_le (p : Row → Bool) :
    spaceOf (rows.filter p) monitorId ≤ spaceOf rows monitorId :=
  tally_filter_le Row.space_nonneg p rows

end

/-- The rows that copy an event agree with it on the monitor and on the disk space. -/
def Copies (rows : List Row) (e : Row) : Prop :=
  ∀ r ∈ rows, r.eventId = e.eventId → r.monitorId = e.monitorId ∧ r.space = e.space

namespace Copies

variable {rows : List Row} {e : Row}

theorem countOf_deleteRow (h : Copies rows e) (monitorId : ℕ) :
    countOf (deleteRow rows e.eventId) monitorId = countOf rows monitorId -
      if e.monitorId = monitorId then (deletedRows rows e.eventId : ℤ) else 0 := by
  simp only [countOf_eq_tally, deleteRow]
  rw [tally_filter_not (fun r hr hid ↦ ⟨(h r hr (by simpa using hid)).1, rfl⟩), mul_one]
  rfl

theorem spaceOf_deleteRow (h : Copies rows e) (monitorId : ℕ) :
    spaceOf (deleteRow rows e.eventId) monitorId = spaceOf rows monitorId -
      if e.monitorId = monitorId then deletedRows rows e.eventId * e.space else 0 :=
  tally_filter_not (fun r hr hid ↦ h r hr (by simpa using hid))

theorem countOf_setDiskSpace (h : Copies rows e) (diskSpace : Option ℕ) (monitorId : ℕ) :
    countOf (setDiskSpace rows e.eventId diskSpace) monitorId = countOf rows monitorId := by
  simp only [countOf_eq_tally, setDiskSpace]
  have hmap := @tally_map_ite _ _ _ Row.monitorId (fun _ ↦ 1) monitorId
    (fun r ↦ decide (r.eventId = e.eventId)) (fun r ↦ { r with diskSpace }) e.monitorId 0 rows
    (fun r ↦ rfl) (fun r hr hid ↦ ⟨(h r hr (by simpa using hid)).1, rfl⟩)
  simpa using hmap

/-- Every row of the event counts as changed where the disk space does change. -/
theorem spaceOf_setDiskSpace (h : Copies rows e) (diskSpace : Option ℕ) (monitorId : ℕ)
    (hne : (diskSpace.getD 0 : ℤ) - e.space ≠ 0) :
    spaceOf (setDiskSpace rows e.eventId diskSpace) monitorId = spaceOf rows monitorId +
      if e.monitorId = monitorId then
        changedRows rows e.eventId diskSpace * ((diskSpace.getD 0 : ℤ) - e.space) else 0 := by
  have hchanged : changedRows rows e.eventId diskSpace =
      rows.countP (fun r ↦ decide (r.eventId = e.eventId)) := by
    refine List.countP_congr (fun r hr ↦ ?_)
    simp only [decide_eq_true_eq]
    constructor
    · intro hr'
      exact hr'.1
    · intro hid
      refine ⟨hid, ?_⟩
      intro heq
      have hspace := (h r hr hid).2
      rw [Row.space, heq] at hspace
      omega
  have hmap := @tally_map_ite _ _ _ Row.monitorId Row.space monitorId
    (fun r ↦ decide (r.eventId = e.eventId)) (fun r ↦ { r with diskSpace }) e.monitorId
    ((diskSpace.getD 0 : ℤ) - e.space) rows (fun r ↦ rfl) (fun r hr hid ↦ by
      obtain ⟨hmon, hspace⟩ := h r hr (by simpa using hid)
      exact ⟨hmon, by simp only [Row.space] at hspace ⊢; omega⟩)
  rw [hchanged]
  simpa [spaceOf_eq_tally, setDiskSpace] using hmap

end Copies

/-- An event; `Archived` is kept to 0 and 1. -/
structure Event extends Row where
  archived : Bool
  deriving DecidableEq

inductive Bucket
  | hour
  | day
  | week
  | month
  deriving DecidableEq

def coalesce (column : Option ℤ) : ℤ := column.getD 0

/-- The two columns of `Event_Summaries` that count one kind of events. -/
structure Counter where
  events : Option ℤ := none
  diskSpace : Option ℤ := none
  deriving DecidableEq

structure Summary where
  total : Counter := {}
  archived : Counter := {}
  bucket : Bucket → Counter := fun _ ↦ {}

structure Database where
  events : List Event
  bucket : Bucket → List Row
  archived : List Row
  summaries : ℕ → Option Summary

def Database.empty : Database := ⟨[], fun _ ↦ [], [], fun _ ↦ none⟩

namespace Database

/-- `UPDATE Event_Summaries SET … WHERE MonitorId = monitorId` -/
def updateSummary (db : Database) (monitorId : ℕ) (f : Summary → Summary) : Database :=
  { db with summaries := Function.update db.summaries monitorId ((db.summaries monitorId).map f) }

/-- `INSERT INTO Event_Summaries … ON DUPLICATE KEY UPDATE …` -/
def upsertSummary (db : Database) (monitorId : ℕ) (new : Summary) (f : Summary → Summary) :
    Database :=
  { db with
    summaries := Function.update db.summaries monitorId
      (some (((db.summaries monitorId).map f).getD new)) }

end Database

section

-- `GREATEST`, or what stands in its place where the two are compared.
variable (greatest : ℤ → ℤ → ℤ)

def Counter.addSpace (c : Counter) (diff : ℤ) : Counter :=
  { c with diskSpace := some (greatest (coalesce c.diskSpace + diff) 0) }

def Counter.remove (c : Counter) (events diskSpace : ℤ) : Counter where
  events := some (greatest (coalesce c.events - events) 0)
  diskSpace := some (greatest (coalesce c.diskSpace - diskSpace) 0)

/-- What the update trigger does where the disk space has changed. -/
def resizeBuckets (new old : Event) (diff : ℤ) (db : Database) : Database :=
  let rows b := changedRows (db.bucket b) new.eventId new.diskSpace
  { db with
    bucket := fun b ↦ setDiskSpace (db.bucket b) new.eventId new.diskSpace }.updateSummary
      old.monitorId fun s ↦
        { s with
          bucket := fun b ↦ (s.bucket b).addSpace greatest (rows b * diff)
          total := s.total.addSpace greatest diff }

/-- The row must not be there already. -/
def archive (new : Event) (db : Database) : Option Database :=
  if ∃ r ∈ db.archived, r.eventId = new.eventId then none
  else
    some ({ db with archived := db.archived ++ [new.toRow] }.upsertSummary new.monitorId
      { archived := ⟨some 1, new.diskSpace.map Int.ofNat⟩ }
      fun s ↦
        { s with
          archived :=
            ⟨some (coalesce s.archived.events + 1),
              some (coalesce s.archived.diskSpace + new.space)⟩ })

def unarchive (old : Event) (db : Database) : Database :=
  { db with archived := deleteRow db.archived old.eventId }.updateSummary old.monitorId fun s ↦
    { s with archived := s.archived.remove greatest 1 old.space }

def resizeArchived (new old : Event) (diff : ℤ) (db : Database) : Database :=
  { db with archived := setDiskSpace db.archived new.eventId new.diskSpace }.updateSummary
    old.monitorId fun s ↦ { s with archived := s.archived.addSpace greatest diff }

def eventUpdateTrigger (new old : Event) (db : Database) : Option Database :=
  let diff := new.space - old.space
  let db := if diff ≠ 0 then resizeBuckets greatest new old diff db else db
  if new.archived ≠ old.archived then
    if new.archived then archive new db
    else if old.archived then some (unarchive greatest old db)
    else some db
  else if new.archived ∧ diff ≠ 0 then some (resizeArchived greatest new old diff db)
  else some db

def eventDeleteTrigger (old : Event) (db : Database) : Database :=
  let rows b := deletedRows (db.bucket b) old.eventId
  let db := { db with bucket := fun b ↦ deleteRow (db.bucket b) old.eventId }
  if old.archived then
    { db with archived := deleteRow db.archived old.eventId }.updateSummary old.monitorId fun s ↦
      { bucket := fun b ↦ (s.bucket b).remove greatest (rows b) (rows b * old.space)
        total := s.total.remove greatest 1 old.space
        archived := s.archived.remove greatest 1 old.space }
  else
    db.updateSummary old.monitorId fun s ↦
      { s with
        bucket := fun b ↦ (s.bucket b).remove greatest (rows b) (rows b * old.space)
        total := s.total.remove greatest 1 old.space }

end

/-- The counters of a monitor without a row have no value. -/
def Database.summary (db : Database) (monitorId : ℕ) : Summary :=
  (db.summaries monitorId).getD {}

/-- An event as it is created, with an id that has not been used for another. -/
def createEvent (id monitorId : ℕ) (db : Database) : Option Database :=
  if ∃ e ∈ db.events, e.eventId = id then none
  else
    let counted (c : Counter) : Counter := { c with events := some (coalesce c.events + 1) }
    some ({ db with
      events := db.events.concat ⟨⟨id, monitorId, none⟩, false⟩
      bucket := fun b ↦ insertRow (db.bucket b) ⟨id, monitorId, none⟩ }.upsertSummary monitorId
        { total := ⟨some 1, none⟩, bucket := fun _ ↦ ⟨some 1, none⟩ }
        fun s ↦ { s with total := counted s.total, bucket := fun b ↦ counted (s.bucket b) })

/-- `UPDATE Events SET DiskSpace = diskSpace, Archived = archived WHERE Id = id` -/
def updateEvent (greatest : ℤ → ℤ → ℤ) (id : ℕ) (diskSpace : Option ℕ) (archived : Bool)
    (db : Database) : Option Database :=
  match db.events.find? (fun e ↦ e.eventId = id) with
  | none => some db
  | some old =>
    let new : Event := { old with diskSpace, archived }
    eventUpdateTrigger greatest new old
      { db with events := db.events.map (fun e ↦ if e.eventId = id then new else e) }

/-- `DELETE FROM Events WHERE Id = id` -/
def deleteEvent (greatest : ℤ → ℤ → ℤ) (id : ℕ) (db : Database) : Database :=
  match db.events.find? (fun e ↦ e.eventId = id) with
  | none => db
  | some old =>
    let db := eventDeleteTrigger greatest old db
    { db with events := db.events.filter (fun e ↦ !(e.eventId = id)) }

def pruneBucket (b : Bucket) (aged : Row → Bool) (db : Database) : Database :=
  { db with bucket := Function.update db.bucket b ((db.bucket b).filter (fun r ↦ !aged r)) }

def resyncMonitor (monitorId : ℕ) (db : Database) : Database :=
  db.updateSummary monitorId fun s ↦
    { s with
      bucket := fun b ↦
        ⟨some (countOf (db.bucket b) monitorId), some (spaceOf (db.bucket b) monitorId)⟩ }

def buckets : List Bucket := [.hour, .day, .week, .month]

/-- The monitors that the pruned rows belong to. -/
def touchedMonitors (aged : Bucket → Row → Bool) (db : Database) : List ℕ :=
  (buckets.flatMap (fun b ↦ ((db.bucket b).filter (aged b)).map Row.monitorId)).dedup

/-- The pass of `zmstats.pl`: aged rows are pruned and the monitors they belonged to resynced. -/
def zmstats (aged : Bucket → Row → Bool) (db : Database) : Database :=
  (touchedMonitors aged db).foldl (fun db monitorId ↦ resyncMonitor monitorId db)
    (buckets.foldl (fun db b ↦ pruneBucket b (aged b) db) db)

inductive Op
  | create (id monitorId : ℕ)
  | update (id : ℕ) (diskSpace : Option ℕ) (archived : Bool)
  | delete (id : ℕ)
  | prune (b : Bucket) (aged : Row → Bool)
  | resync (monitorId : ℕ)
  | zmstats (aged : Bucket → Row → Bool)

def step (greatest : ℤ → ℤ → ℤ) (db : Database) : Op → Option Database
  | .create id monitorId => createEvent id monitorId db
  | .update id diskSpace archived => updateEvent greatest id diskSpace archived db
  | .delete id => some (deleteEvent greatest id db)
  | .prune b aged => some (pruneBucket b aged db)
  | .resync monitorId => some (resyncMonitor monitorId db)
  | .zmstats aged => some (zmstats aged db)

/-- A statement that fails is rolled back. -/
def run (greatest : ℤ → ℤ → ℤ) (db : Database) (ops : List Op) : Database :=
  ops.foldl (fun db op ↦ (step greatest db op).getD db) db

end ZoneMinder.EventSummaries
