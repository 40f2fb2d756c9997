import ZoneMinder.EventSummaries.Triggers
import Mathlib.Data.List.Perm.Basic

namespace ZoneMinder.EventSummaries

/-- No `GREATEST`: the counter goes wherever its delta takes it. -/
def unclipped (x _ : ℤ) : ℤ := x

def Row.key (r : Row) : ℕ × ℕ × ℤ := (r.eventId, r.monitorId, r.space)

def Database.rows (db : Database) : List Row := db.events.map Event.toRow

def archivedRows (events : List Event) : List Row := (events.filter Event.archived).map Event.toRow

namespace Counter

variable {c : Counter} {rows rows' : List Row} {monitorId : ℕ} {n d : ℤ}

/-- The counter is the number and the disk space of the monitor's rows. -/
structure Counts (c : Counter) (rows : List Row) (monitorId : ℕ) : Prop where
  events : coalesce c.events = countOf rows monitorId
  diskSpace : coalesce c.diskSpace = spaceOf rows monitorId

/-- The counter is at least that. -/
structure Covers (c : Counter) (rows : List Row) (monitorId : ℕ) : Prop where
  events : countOf rows monitorId ≤ coalesce c.events
  diskSpace : spaceOf rows monitorId ≤ coalesce c.diskSpace

theorem Counts.covers (h : c.Counts rows monitorId) : c.Covers rows monitorId :=
  ⟨h.events.ge, h.diskSpace.ge⟩

theorem Covers.addSpace_eq (h : c.Covers rows monitorId)
    (hd : spaceOf rows' monitorId = spaceOf rows monitorId + d) :
    c.addSpace max d = c.addSpace unclipped d := by
  have hpos := @spaceOf_nonneg rows' monitorId
  have hle := h.diskSpace
  rw [addSpace, addSpace, unclipped, max_eq_left (by omega)]

theorem Covers.remove_eq (h : c.Covers rows monitorId)
    (hn : countOf rows' monitorId = countOf rows monitorId - n)
    (hd : spaceOf rows' monitorId = spaceOf rows monitorId - d) :
    c.remove max n d = c.remove unclipped n d := by
  have hpos := @spaceOf_nonneg rows' monitorId
  have hpos' := @countOf_nonneg rows' monitorId
  have hle := h.diskSpace
  have hle' := h.events
  rw [remove, remove, unclipped, unclipped, max_eq_left (by omega), max_eq_left (by omega)]

theorem Counts.addSpace (h : c.Counts rows monitorId)
    (hn : countOf rows' monitorId = countOf rows monitorId)
    (hd : spaceOf rows' monitorId = spaceOf rows monitorId + d) :
    (c.addSpace unclipped d).Counts rows' monitorId := by
  refine ⟨?_, ?_⟩
  · rw [hn]
    exact h.events
  · rw [hd, ← h.diskSpace]
    rfl

theorem Covers.addSpace (h : c.Covers rows monitorId)
    (hn : countOf rows' monitorId = countOf rows monitorId)
    (hd : spaceOf rows' monitorId = spaceOf rows monitorId + d) :
    (c.addSpace unclipped d).Covers rows' monitorId := by
  refine ⟨?_, ?_⟩
  · rw [hn]
    exact h.events
  · rw [hd]
    exact Int.add_le_add_right h.diskSpace d

theorem Counts.remove (h : c.Counts rows monitorId)
    (hn : countOf rows' monitorId = countOf rows monitorId - n)
    (hd : spaceOf rows' monitorId = spaceOf rows monitorId - d) :
    (c.remove unclipped n d).Counts rows' monitorId := by
  refine ⟨?_, ?_⟩
  · rw [hn, ← h.events]
    rfl
  · rw [hd, ← h.diskSpace]
    rfl

theorem Covers.remove (h : c.Covers rows monitorId)
    (hn : countOf rows' monitorId = countOf rows monitorId - n)
    (hd : spaceOf rows' monitorId = spaceOf rows monitorId - d) :
    (c.remove unclipped n d).Covers rows' monitorId := by
  refine ⟨?_, ?_⟩
  · rw [hn]
    exact Int.sub_le_sub_right h.events n
  · rw [hd]
    exact Int.sub_le_sub_right h.diskSpace d

theorem Counts.congr (h : c.Counts rows monitorId)
    (hn : countOf rows' monitorId = countOf rows monitorId)
    (hd : spaceOf rows' monitorId = spaceOf rows monitorId) : c.Counts rows' monitorId :=
  ⟨hn ▸ h.events, hd ▸ h.diskSpace⟩

theorem Covers.congr (h : c.Covers rows monitorId)
    (hn : countOf rows' monitorId = countOf rows monitorId)
    (hd : spaceOf rows' monitorId = spaceOf rows monitorId) : c.Covers rows' monitorId :=
  ⟨hn ▸ h.events, hd ▸ h.diskSpace⟩

theorem Covers.filter (h : c.Covers rows monitorId) (p : Row → Bool) :
    c.Covers (rows.filter p) monitorId :=
  ⟨(countOf_filter_le p).trans h.events, (spaceOf_filter_le p).trans h.diskSpace⟩

end Counter

/-- What the statements keep of the events, of the buckets and of their counters. -/
structure Kept (db : Database) : Prop where
  nodup : (db.events.map fun e ↦ e.eventId).Nodup
  copies : ∀ b, ∀ r ∈ db.bucket b, r.key ∈ db.rows.map Row.key
  present : ∀ e ∈ db.events, (db.summaries e.monitorId).isSome
  total : ∀ m, (db.summary m).total.Counts db.rows m
  bucket : ∀ b m, ((db.summary m).bucket b).Covers (db.bucket b) m

/-- The archive is a copy of the rows, up to their order and to whether no disk space is null or 0,
and the counters are exact. -/
structure Archives (archived : List Row) (counter : ℕ → Counter) (rows : List Row) : Prop where
  perm : (archived.map Row.key).Perm (rows.map Row.key)
  counts : ∀ m, (counter m).Counts rows m

def KeptArchive (db : Database) : Prop :=
  Archives db.archived (fun m ↦ (db.summary m).archived) (archivedRows db.events)

section Summaries

variable {db db' : Database} {monitorId m : ℕ}

theorem summary_updateSummary (h : (db.summaries monitorId).isSome) (f : Summary → Summary) :
    (db.updateSummary monitorId f).summary m =
      if m = monitorId then f (db.summary m) else db.summary m := by
  obtain ⟨s, hs⟩ := Option.isSome_iff_exists.mp h
  by_cases hm : m = monitorId
  · subst hm
    simp [Database.summary, Database.updateSummary, hs]
  · simp [Database.summary, Database.updateSummary, hm]

theorem isSome_updateSummary (f : Summary → Summary) :
    ((db.updateSummary monitorId f).summaries m).isSome = (db.summaries m).isSome := by
  by_cases hm : m = monitorId
  · subst hm
    simp [Database.updateSummary]
  · simp [Database.updateSummary, hm]

theorem updateSummary_congr {f g : Summary → Summary}
    (h : f (db.summary monitorId) = g (db.summary monitorId)) :
    db.updateSummary monitorId f = db.updateSummary monitorId g := by
  cases hs : db.summaries monitorId with
  | none => simp [Database.updateSummary, hs]
  | some s =>
    have hs' : f s = g s := by simpa [Database.summary, hs] using h
    simp [Database.updateSummary, hs, hs']

/-- The row that is inserted is the one that the update would make of no counts at all. -/
theorem summary_upsertSummary {new : Summary} {f : Summary → Summary}
    (h : (db.summaries monitorId).isSome ∨ new = f {}) :
    (db.upsertSummary monitorId new f).summary m =
      if m = monitorId then f (db.summary m) else db.summary m := by
  by_cases hm : m = monitorId
  · subst hm
    cases hs : db.summaries m with
    | none =>
      have hnew : new = f {} := by simpa [hs] using h
      simp [Database.summary, Database.upsertSummary, hs, hnew]
    | some s => simp [Database.summary, Database.upsertSummary, hs]
  · simp [Database.summary, Database.upsertSummary, hm]

theorem upsertSummary_eq (h : (db.summaries monitorId).isSome) (new : Summary)
    (f : Summary → Summary) :
    db.upsertSummary monitorId new f = db.updateSummary monitorId f := by
  obtain ⟨s, hs⟩ := Option.isSome_iff_exists.mp h
  simp [Database.upsertSummary, Database.updateSummary, hs]

theorem isSome_upsertSummary (new : Summary) (f : Summary → Summary)
    (h : (db.summaries m).isSome ∨ m = monitorId) :
    ((db.upsertSummary monitorId new f).summaries m).isSome := by
  by_cases hm : m = monitorId
  · subst hm
    simp [Database.upsertSummary]
  · simpa [Database.upsertSummary, hm] using h

/-- The archive has its own columns. -/
theorem Kept.of_eq (h : Kept db) (hevents : db'.events = db.events)
    (hbucket : db'.bucket = db.bucket)
    (hpresent : ∀ m, (db.summaries m).isSome → (db'.summaries m).isSome)
    (hsummary : ∀ m, (db'.summary m).total = (db.summary m).total ∧
      (db'.summary m).bucket = (db.summary m).bucket) : Kept db' where
  nodup := by rw [hevents]; exact h.nodup
  copies := by
    rw [hbucket, Database.rows, hevents]
    exact h.copies
  present := by
    rw [hevents]
    intro e he
    exact hpresent _ (h.present e he)
  total := by
    intro m
    rw [(hsummary m).1, Database.rows, hevents]
    exact h.total m
  bucket := by
    intro b m
    rw [(hsummary m).2, hbucket]
    exact h.bucket b m

end Summaries

theorem exists_split {events : List Event} {id : ℕ} {old : Event}
    (hn : (events.map fun e ↦ e.eventId).Nodup)
    (h : events.find? (fun e ↦ e.eventId = id) = some old) :
    old.eventId = id ∧ ∃ l₁ l₂, events = l₁ ++ old :: l₂ ∧
      (∀ e ∈ l₁, e.eventId ≠ id) ∧ ∀ e ∈ l₂, e.eventId ≠ id := by
  obtain ⟨hid, l₁, l₂, hevents, hl₁⟩ := List.find?_eq_some_iff_append.mp h
  have hid' : old.eventId = id := by simpa using hid
  refine ⟨hid', l₁, l₂, hevents, ?_, ?_⟩
  · intro e he
    simpa using hl₁ e he
  · intro e he heq
    rw [hevents, List.map_append, List.map_cons, List.nodup_append, List.nodup_cons] at hn
    refine hn.2.1.1 ?_
    rw [hid', ← heq]
    exact List.mem_map_of_mem he

section Split

variable {db : Database} {old new : Event} {l₁ l₂ : List Event}

theorem map_split (new : Event) (h₁ : ∀ e ∈ l₁, e.eventId ≠ old.eventId)
    (h₂ : ∀ e ∈ l₂, e.eventId ≠ old.eventId) :
    (l₁ ++ old :: l₂).map (fun e ↦ if e.eventId = old.eventId then new else e) =
      l₁ ++ new :: l₂ := by
  have hid (l : List Event) (h : ∀ e ∈ l, e.eventId ≠ old.eventId) :
      l.map (fun e ↦ if e.eventId = old.eventId then new else e) = l := by
    refine (List.map_congr_left fun e he ↦ ?_).trans (List.map_id l)
    rw [if_neg (h e he), id]
  simp [hid l₁ h₁, hid l₂ h₂]

theorem filter_split (h₁ : ∀ e ∈ l₁, e.eventId ≠ old.eventId)
    (h₂ : ∀ e ∈ l₂, e.eventId ≠ old.eventId) :
    (l₁ ++ old :: l₂).filter (fun e ↦ !(e.eventId = old.eventId)) = l₁ ++ l₂ := by
  have hid (l : List Event) (h : ∀ e ∈ l, e.eventId ≠ old.eventId) :
      l.filter (fun e ↦ !(e.eventId = old.eventId)) = l := by
    refine List.filter_eq_self.mpr fun e he ↦ ?_
    simpa using h e he
  simp [hid l₁ h₁, hid l₂ h₂]

theorem Kept.copies_event (h : Kept db) (hevents : db.events = l₁ ++ old :: l₂)
    (h₁ : ∀ e ∈ l₁, e.eventId ≠ old.eventId) (h₂ : ∀ e ∈ l₂, e.eventId ≠ old.eventId)
    (b : Bucket) : Copies (db.bucket b) old.toRow := by
  intro r hr hid
  obtain ⟨r', hr', hkey⟩ := List.mem_map.mp (h.copies b r hr)
  obtain ⟨e, he, rfl⟩ := List.mem_map.mp hr'
  simp only [Row.key, Prod.mk.injEq] at hkey
  have hid' : e.eventId = old.eventId := hkey.1.trans hid
  have hold : e = old := by
    rw [hevents, List.mem_append, List.mem_cons] at he
    rcases he with he | he | he
    · exact absurd hid' (h₁ e he)
    · exact he
    · exact absurd hid' (h₂ e he)
  subst hold
  exact ⟨hkey.2.1.symm, hkey.2.2.symm⟩

end Split

section Archives

variable {archived rows₁ rows₂ : List Row} {counter : ℕ → Counter} {r : Row}

theorem countOf_without (m : ℕ) : countOf (rows₁ ++ rows₂) m =
    countOf (rows₁ ++ r :: rows₂) m - if r.monitorId = m then 1 else 0 := by
  rw [countOf_append, countOf_append, countOf_cons]
  ring

theorem spaceOf_without (m : ℕ) : spaceOf (rows₁ ++ rows₂) m =
    spaceOf (rows₁ ++ r :: rows₂) m - if r.monitorId = m then r.space else 0 := by
  rw [spaceOf_append, spaceOf_append, spaceOf_cons]
  ring

theorem Archives.insert (h : Archives archived counter (rows₁ ++ rows₂)) :
    Archives (archived ++ [r])
      (fun m ↦ if m = r.monitorId then
        ⟨some (coalesce (counter m).events + 1), some (coalesce (counter m).diskSpace + r.space)⟩
      else counter m) (rows₁ ++ r :: rows₂) := by
  refine ⟨?_, ?_⟩
  · have hperm := h.perm.append_right [r.key]
    rw [List.map_append] at hperm
    rw [List.map_append, List.map_append, List.map_cons]
    refine hperm.trans ?_
    rw [List.append_assoc]
    exact (List.perm_append_comm).append_left _
  · intro m
    have hcounts := h.counts m
    by_cases hm : m = r.monitorId
    · have hevents := hcounts.events
      have hspace := hcounts.diskSpace
      rw [countOf_append] at hevents
      rw [spaceOf_append] at hspace
      rw [if_pos hm]
      refine ⟨?_, ?_⟩
      · rw [countOf_append, countOf_cons, if_pos hm.symm]
        simp only [coalesce, Option.getD_some] at hevents ⊢
        omega
      · rw [spaceOf_append, spaceOf_cons, if_pos hm.symm]
        simp only [coalesce, Option.getD_some] at hspace ⊢
        omega
    · rw [if_neg hm]
      refine hcounts.congr ?_ ?_
      · simp [countOf_cons, Ne.symm hm]
      · simp [spaceOf_cons, Ne.symm hm]

theorem Archives.delete (h : Archives archived counter (rows₁ ++ r :: rows₂))
    (h₁ : ∀ r' ∈ rows₁, r'.eventId ≠ r.eventId) (h₂ : ∀ r' ∈ rows₂, r'.eventId ≠ r.eventId) :
    Archives (deleteRow archived r.eventId)
      (fun m ↦ if m = r.monitorId then (counter m).remove unclipped 1 r.space else counter m)
      (rows₁ ++ rows₂) := by
  refine ⟨?_, ?_⟩
  · have hkeys (rows : List Row) : (deleteRow rows r.eventId).map Row.key =
        (rows.map Row.key).filter (fun k ↦ !(k.1 = r.eventId)) := by
      rw [List.filter_map]
      rfl
    have hid (rows : List Row) (hrows : ∀ r' ∈ rows, r'.eventId ≠ r.eventId) :
        deleteRow rows r.eventId = rows := by
      refine List.filter_eq_self.mpr fun r' hr' ↦ ?_
      simpa using hrows r' hr'
    have hperm := h.perm.filter (fun k ↦ !(k.1 = r.eventId))
    rw [← hkeys, ← hkeys] at hperm
    have hrows : deleteRow (rows₁ ++ r :: rows₂) r.eventId = rows₁ ++ rows₂ := by
      rw [← hid rows₁ h₁, ← hid rows₂ h₂]
      simp [deleteRow]
    rwa [hrows] at hperm
  · intro m
    have hn := @countOf_without rows₁ rows₂ r m
    have hd := @spaceOf_without rows₁ rows₂ r m
    by_cases hm : m = r.monitorId
    · rw [if_pos hm.symm] at hn hd
      rw [if_pos hm]
      exact (h.counts m).remove hn hd
    · rw [if_neg (Ne.symm hm), sub_zero] at hn hd
      rw [if_neg hm]
      exact (h.counts m).congr hn hd

theorem Archives.setDiskSpace (h : Archives archived counter (rows₁ ++ r :: rows₂))
    (h₁ : ∀ r' ∈ rows₁, r'.eventId ≠ r.eventId) (h₂ : ∀ r' ∈ rows₂, r'.eventId ≠ r.eventId)
    (diskSpace : Option ℕ) :
    Archives (setDiskSpace archived r.eventId diskSpace)
      (fun m ↦ if m = r.monitorId then
        (counter m).addSpace unclipped ((diskSpace.getD 0 : ℤ) - r.space) else counter m)
      (rows₁ ++ { r with diskSpace } :: rows₂) := by
  refine ⟨?_, ?_⟩
  · let moved (k : ℕ × ℕ × ℤ) : ℕ × ℕ × ℤ :=
      if k.1 = r.eventId then (k.1, k.2.1, (diskSpace.getD 0 : ℤ)) else k
    have hkeys (rows : List Row) :
        (EventSummaries.setDiskSpace rows r.eventId diskSpace).map Row.key =
          (rows.map Row.key).map moved := by
      rw [EventSummaries.setDiskSpace, List.map_map, List.map_map]
      refine List.map_congr_left fun r' _ ↦ ?_
      by_cases hid : r'.eventId = r.eventId
      · simp [moved, Row.key, Row.space, hid]
      · simp [moved, Row.key, hid]
    have hid (rows : List Row) (hrows : ∀ r' ∈ rows, r'.eventId ≠ r.eventId) :
        EventSummaries.setDiskSpace rows r.eventId diskSpace = rows := by
      refine (List.map_congr_left fun r' hr' ↦ ?_).trans (List.map_id rows)
      rw [if_neg (hrows r' hr'), id]
    have hperm := h.perm.map moved
    rw [← hkeys, ← hkeys] at hperm
    have hrows : EventSummaries.setDiskSpace (rows₁ ++ r :: rows₂) r.eventId diskSpace =
        rows₁ ++ { r with diskSpace } :: rows₂ := by
      conv_rhs => rw [← hid rows₁ h₁, ← hid rows₂ h₂]
      simp [EventSummaries.setDiskSpace]
    rwa [hrows] at hperm
  · intro m
    have hn : countOf (rows₁ ++ { r with diskSpace } :: rows₂) m =
        countOf (rows₁ ++ r :: rows₂) m := by
      simp [countOf_cons]
    have hd : spaceOf (rows₁ ++ { r with diskSpace } :: rows₂) m =
        spaceOf (rows₁ ++ r :: rows₂) m +
          if r.monitorId = m then (diskSpace.getD 0 : ℤ) - r.space else 0 := by
      simp only [spaceOf_append, spaceOf_cons, Row.space]
      split_ifs <;> ring
    by_cases hm : m = r.monitorId
    · rw [if_pos hm.symm] at hd
      rw [if_pos hm]
      exact (h.counts m).addSpace hn hd
    · rw [if_neg (Ne.symm hm), add_zero] at hd
      rw [if_neg hm]
      exact (h.counts m).congr hn hd

end Archives

section Archived

variable {db : Database} {old : Event} {l₁ l₂ : List Event}

theorem archivedRows_split (e : Event) : archivedRows (l₁ ++ e :: l₂) =
    archivedRows l₁ ++ if e.archived then e.toRow :: archivedRows l₂ else archivedRows l₂ := by
  by_cases he : e.archived <;> simp [archivedRows, he]

theorem eventId_ne_of_mem_archivedRows {l : List Event} {id : ℕ}
    (h : ∀ e ∈ l, e.eventId ≠ id) : ∀ r ∈ archivedRows l, r.eventId ≠ id := by
  intro r hr
  obtain ⟨e, he, rfl⟩ := List.mem_map.mp hr
  exact h e (List.mem_of_mem_filter he)

/-- The archive has no row for an event that is not archived. -/
theorem KeptArchive.not_mem (h : KeptArchive db) (hevents : db.events = l₁ ++ old :: l₂)
    (h₁ : ∀ e ∈ l₁, e.eventId ≠ old.eventId) (h₂ : ∀ e ∈ l₂, e.eventId ≠ old.eventId)
    (hold : old.archived = false) : ¬∃ r ∈ db.archived, r.eventId = old.eventId := by
  intro hex
  obtain ⟨r, hr, hid⟩ := hex
  obtain ⟨r', hr', hkey⟩ := List.mem_map.mp (h.perm.mem_iff.mp (List.mem_map_of_mem hr))
  have hid' : r'.eventId = old.eventId := (Prod.mk.inj hkey).1.trans hid
  rw [hevents, archivedRows_split, hold, if_neg Bool.false_ne_true, List.mem_append] at hr'
  rcases hr' with hr' | hr'
  · exact eventId_ne_of_mem_archivedRows h₁ r' hr' hid'
  · exact eventId_ne_of_mem_archivedRows h₂ r' hr' hid'

end Archived

end ZoneMinder.EventSummaries
