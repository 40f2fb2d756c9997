import ZoneMinder.EventSummaries.Update

namespace ZoneMinder.EventSummaries

section Delete

variable {db : Database} {old : Event} {l₁ l₂ : List Event}

/-- Both branches of the delete trigger at once. -/
def removeEvent (greatest : ℤ → ℤ → ℤ) (old : Event) (db : Database) : Database :=
  { db with
    bucket := fun b ↦ deleteRow (db.bucket b) old.eventId
    archived := if old.archived then deleteRow db.archived old.eventId else db.archived
    }.updateSummary old.monitorId fun s ↦
      { bucket := fun b ↦ (s.bucket b).remove greatest (deletedRows (db.bucket b) old.eventId)
          (deletedRows (db.bucket b) old.eventId * old.space)
        total := s.total.remove greatest 1 old.space
        archived := if old.archived then s.archived.remove greatest 1 old.space else s.archived }

theorem eventDeleteTrigger_eq (greatest : ℤ → ℤ → ℤ) :
    eventDeleteTrigger greatest old db = removeEvent greatest old db := by
  cases h : old.archived <;> simp [eventDeleteTrigger, removeEvent, h]

theorem removeEvent_clip (h : Kept db) (harchive : KeptArchive db)
    (hevents : db.events = l₁ ++ old :: l₂)
    (h₁ : ∀ e ∈ l₁, e.eventId ≠ old.eventId) (h₂ : ∀ e ∈ l₂, e.eventId ≠ old.eventId) :
    removeEvent max old db = removeEvent unclipped old db := by
  refine updateSummary_congr ?_
  have htotal := h.total old.monitorId
  have hbucket (b : Bucket) :
      ((db.summary old.monitorId).bucket b).remove max
          (deletedRows (db.bucket b) old.eventId)
          (deletedRows (db.bucket b) old.eventId * old.space) =
        ((db.summary old.monitorId).bucket b).remove unclipped
          (deletedRows (db.bucket b) old.eventId)
          (deletedRows (db.bucket b) old.eventId * old.space) := by
    have hcopies := h.copies_event hevents h₁ h₂ b
    refine (h.bucket b old.monitorId).remove_eq
      ((hcopies.countOf_deleteRow old.monitorId).trans ?_)
      ((hcopies.spaceOf_deleteRow old.monitorId).trans ?_)
    · rw [if_pos rfl]
    · rw [if_pos rfl]
  have hcountsArchived := harchive.counts old.monitorId
  rw [Database.rows, hevents, List.map_append, List.map_cons] at htotal
  rw [hevents, archivedRows_split] at hcountsArchived
  rw [Summary.mk.injEq]
  refine ⟨?_, ?_, funext hbucket⟩
  · exact htotal.covers.remove_eq ((countOf_without _).trans (by rw [if_pos rfl]))
      ((spaceOf_without _).trans (by rw [if_pos rfl]))
  · cases ho : old.archived with
    | false => rfl
    | true =>
      rw [ho, if_pos rfl] at hcountsArchived
      exact hcountsArchived.covers.remove_eq ((countOf_without _).trans (by rw [if_pos rfl]))
        ((spaceOf_without _).trans (by rw [if_pos rfl]))

theorem summary_removeEvent (h : Kept db) (hevents : db.events = l₁ ++ old :: l₂) (m : ℕ) :
    ({ removeEvent unclipped old db with events := l₁ ++ l₂ } : Database).summary m =
      if m = old.monitorId then
        { bucket := fun b ↦ ((db.summary m).bucket b).remove unclipped
            (deletedRows (db.bucket b) old.eventId)
            (deletedRows (db.bucket b) old.eventId * old.space)
          total := (db.summary m).total.remove unclipped 1 old.space
          archived := if old.archived then
            (db.summary m).archived.remove unclipped 1 old.space else (db.summary m).archived }
      else db.summary m :=
  @summary_updateSummary
    { db with
      bucket := fun b ↦ deleteRow (db.bucket b) old.eventId
      archived := if old.archived then deleteRow db.archived old.eventId else db.archived }
    old.monitorId m (h.present old (by simp [hevents])) _

theorem removeEvent_kept (h : Kept db) (hevents : db.events = l₁ ++ old :: l₂)
    (h₁ : ∀ e ∈ l₁, e.eventId ≠ old.eventId) (h₂ : ∀ e ∈ l₂, e.eventId ≠ old.eventId) :
    Kept { removeEvent unclipped old db with events := l₁ ++ l₂ } := by
  have hsummary := summary_removeEvent h hevents
  refine ⟨?_, ?_, ?_, ?_, ?_⟩
  · have hn := h.nodup
    rw [hevents] at hn
    exact hn.sublist (((List.sublist_cons_self old l₂).append_left l₁).map _)
  · intro b r hr
    obtain ⟨hmem, hid⟩ := List.mem_filter.mp hr
    have hkey := h.copies b r hmem
    simp only [Database.rows, hevents, List.map_append, List.map_cons, List.mem_append,
      List.mem_cons] at hkey ⊢
    rcases hkey with hkey | hkey | hkey
    · exact .inl hkey
    · have hid' := (Prod.mk.inj hkey).1
      simp [hid'] at hid
    · exact .inr hkey
  · intro e he
    have hmem : e ∈ db.events := by
      rw [hevents]
      exact ((List.sublist_cons_self old l₂).append_left l₁).subset he
    exact (isSome_updateSummary _).trans (h.present e hmem)
  · intro m
    have htotal := h.total m
    rw [Database.rows, hevents, List.map_append, List.map_cons] at htotal
    have hn := @countOf_without (l₁.map Event.toRow) (l₂.map Event.toRow) old.toRow m
    have hd := @spaceOf_without (l₁.map Event.toRow) (l₂.map Event.toRow) old.toRow m
    rw [hsummary, Database.rows, List.map_append]
    by_cases hm : m = old.monitorId
    · rw [if_pos hm.symm] at hn hd
      rw [if_pos hm]
      exact htotal.remove hn hd
    · rw [if_neg (Ne.symm hm), sub_zero] at hn hd
      rw [if_neg hm]
      exact htotal.congr hn hd
  · intro b m
    have hcopies := h.copies_event hevents h₁ h₂ b
    have hn := hcopies.countOf_deleteRow m
    have hd := hcopies.spaceOf_deleteRow m
    rw [hsummary]
    by_cases hm : m = old.monitorId
    · rw [if_pos hm.symm] at hn hd
      rw [if_pos hm]
      exact (h.bucket b m).remove hn hd
    · rw [if_neg (Ne.symm hm), sub_zero] at hn hd
      rw [if_neg hm]
      exact (h.bucket b m).congr hn hd

theorem removeEvent_keptArchive (h : Kept db) (harchive : KeptArchive db)
    (hevents : db.events = l₁ ++ old :: l₂)
    (h₁ : ∀ e ∈ l₁, e.eventId ≠ old.eventId) (h₂ : ∀ e ∈ l₂, e.eventId ≠ old.eventId) :
    KeptArchive { removeEvent unclipped old db with events := l₁ ++ l₂ } := by
  have hrows : archivedRows (l₁ ++ l₂) = archivedRows l₁ ++ archivedRows l₂ := by
    simp [archivedRows]
  have hold : Archives db.archived (fun m ↦ (db.summary m).archived)
      (archivedRows (l₁ ++ old :: l₂)) := hevents ▸ harchive
  rw [archivedRows_split] at hold
  have hkept : Archives
      (if old.archived then deleteRow db.archived old.eventId else db.archived)
      (fun m ↦ if m = old.monitorId then
        (if old.archived then (db.summary m).archived.remove unclipped 1 old.space
          else (db.summary m).archived) else (db.summary m).archived)
      (archivedRows (l₁ ++ l₂)) := by
    rw [hrows]
    cases ho : old.archived with
    | false =>
      rw [ho, if_neg Bool.false_ne_true] at hold
      simpa using hold
    | true =>
      rw [ho, if_pos rfl] at hold
      simpa using hold.delete (eventId_ne_of_mem_archivedRows h₁)
        (eventId_ne_of_mem_archivedRows h₂)
  refine ⟨hkept.perm, ?_⟩
  intro m
  have hcounts := hkept.counts m
  simp only [summary_removeEvent h hevents]
  by_cases hm : m = old.monitorId
  · rw [if_pos hm] at hcounts ⊢
    exact hcounts
  · rw [if_neg hm] at hcounts ⊢
    exact hcounts

end Delete

section Other

variable {db : Database} {id monitorId : ℕ}

theorem Kept.not_mem_bucket (h : Kept db) (hid : ¬∃ e ∈ db.events, e.eventId = id) (b : Bucket) :
    ¬∃ r ∈ db.bucket b, r.eventId = id := by
  intro hex
  obtain ⟨r, hr, hr'⟩ := hex
  obtain ⟨r', hmem, hkey⟩ := List.mem_map.mp (h.copies b r hr)
  obtain ⟨e, he, rfl⟩ := List.mem_map.mp hmem
  exact hid ⟨e, he, (Prod.mk.inj hkey).1.trans hr'⟩

theorem Counter.Counts.create {c : Counter} {rows : List Row} (h : c.Counts rows monitorId) :
    ({ c with events := some (coalesce c.events + 1) } : Counter).Counts
      (rows ++ [⟨id, monitorId, none⟩]) monitorId := by
  refine ⟨?_, ?_⟩
  · have hevents := h.events
    simp only [coalesce, Option.getD_some, countOf_append] at hevents ⊢
    rw [hevents]
    simp [countOf]
  · rw [h.diskSpace, spaceOf_append]
    simp [spaceOf, Row.space]

theorem Counter.Covers.create {c : Counter} {rows : List Row} (h : c.Covers rows monitorId) :
    ({ c with events := some (coalesce c.events + 1) } : Counter).Covers
      (rows ++ [⟨id, monitorId, none⟩]) monitorId := by
  refine ⟨?_, ?_⟩
  · have hevents := h.events
    have hone : countOf [⟨id, monitorId, none⟩] monitorId = 1 := by simp [countOf]
    simp only [coalesce, Option.getD_some, countOf_append, hone] at hevents ⊢
    omega
  · rw [spaceOf_append]
    simpa [spaceOf, Row.space] using h.diskSpace

def Summary.bump (s : Summary) : Summary :=
  { s with
    total := { s.total with events := some (coalesce s.total.events + 1) }
    bucket := fun b ↦ { s.bucket b with events := some (coalesce (s.bucket b).events + 1) } }

/-- A creation that succeeds, where no insertion into a bucket can fail. -/
def created (id monitorId : ℕ) (db : Database) : Database :=
  { db with
    events := db.events ++ [(⟨⟨id, monitorId, none⟩, false⟩ : Event)]
    bucket := fun b ↦ db.bucket b ++ [(⟨id, monitorId, none⟩ : Row)] }.upsertSummary monitorId
      { total := ⟨some 1, none⟩, bucket := fun _ ↦ ⟨some 1, none⟩ } Summary.bump

theorem createEvent_eq (h : Kept db) (hid : ¬∃ e ∈ db.events, e.eventId = id) :
    createEvent id monitorId db = some (created id monitorId db) := by
  have hinsert (b : Bucket) : insertRow (db.bucket b) ⟨id, monitorId, none⟩ =
      db.bucket b ++ [⟨id, monitorId, none⟩] := if_neg (h.not_mem_bucket hid b)
  simp only [createEvent, if_neg hid, List.concat_eq_append, hinsert]
  rfl

theorem summary_created (m : ℕ) : (created id monitorId db).summary m =
    if m = monitorId then (db.summary m).bump else db.summary m :=
  @summary_upsertSummary
    { db with
      events := db.events ++ [(⟨⟨id, monitorId, none⟩, false⟩ : Event)]
      bucket := fun b ↦ db.bucket b ++ [(⟨id, monitorId, none⟩ : Row)] } monitorId m _ _ (.inr rfl)

theorem created_kept (h : Kept db) (hid : ¬∃ e ∈ db.events, e.eventId = id) :
    Kept (created id monitorId db) := by
  have hrows : (created id monitorId db).rows = db.rows ++ [⟨id, monitorId, none⟩] := by
    simp [created, Database.rows, Database.upsertSummary]
  have hother (rows : List Row) {m : ℕ} (hm : m ≠ monitorId) :
      countOf (rows ++ [⟨id, monitorId, none⟩]) m = countOf rows m ∧
        spaceOf (rows ++ [⟨id, monitorId, none⟩]) m = spaceOf rows m := by
    simp [countOf, spaceOf, Ne.symm hm]
  refine ⟨?_, ?_, ?_, ?_, ?_⟩
  · have hn := h.nodup
    simp only [created, Database.upsertSummary, List.map_append, List.map_cons, List.map_nil]
    refine List.nodup_append.mpr ⟨hn, List.nodup_singleton _, ?_⟩
    intro a ha b hb heq
    obtain ⟨e, he, rfl⟩ := List.mem_map.mp ha
    rw [List.mem_singleton] at hb
    exact hid ⟨e, he, heq.trans hb⟩
  · intro b r hr
    rw [hrows, List.map_append, List.mem_append]
    rcases List.mem_append.mp hr with hr | hr
    · exact .inl (h.copies b r hr)
    · rw [List.mem_singleton] at hr
      exact .inr (by simp [hr])
  · intro e he
    refine isSome_upsertSummary _ _ ?_
    rcases List.mem_append.mp he with he | he
    · exact .inl (h.present e he)
    · rw [List.mem_singleton] at he
      exact .inr (by rw [he])
  · intro m
    rw [hrows, summary_created]
    by_cases hm : m = monitorId
    · rw [if_pos hm, hm]
      exact (h.total monitorId).create
    · rw [if_neg hm]
      exact (h.total m).congr (hother _ hm).1 (hother _ hm).2
  · intro b m
    rw [summary_created]
    by_cases hm : m = monitorId
    · rw [if_pos hm, hm]
      exact (h.bucket b monitorId).create
    · rw [if_neg hm]
      exact (h.bucket b m).congr (hother _ hm).1 (hother _ hm).2

theorem created_keptArchive (harchive : KeptArchive db) :
    KeptArchive (created id monitorId db) := by
  have hrows : archivedRows (created id monitorId db).events = archivedRows db.events := by
    simp [created, archivedRows, Database.upsertSummary]
  refine ⟨?_, ?_⟩
  · rw [hrows]
    exact harchive.perm
  · intro m
    rw [hrows, summary_created]
    by_cases hm : m = monitorId
    · rw [if_pos hm]
      exact harchive.counts m
    · rw [if_neg hm]
      exact harchive.counts m

theorem pruneBucket_kept (h : Kept db) (b : Bucket) (aged : Row → Bool) :
    Kept (pruneBucket b aged db) := by
  have hrows (b' : Bucket) : ∃ p : Row → Bool,
      (pruneBucket b aged db).bucket b' = (db.bucket b').filter p := by
    by_cases hb : b' = b
    · exact ⟨fun r ↦ !aged r, by simp [pruneBucket, hb]⟩
    · exact ⟨fun _ ↦ true, by simp [pruneBucket, hb]⟩
  refine ⟨h.nodup, ?_, h.present, h.total, ?_⟩
  · intro b' r hr
    obtain ⟨p, hp⟩ := hrows b'
    rw [hp] at hr
    exact h.copies b' r (List.mem_of_mem_filter hr)
  · intro b' m
    obtain ⟨p, hp⟩ := hrows b'
    rw [hp]
    exact (h.bucket b' m).filter p

/-- A monitor without a row in the summaries has none in a bucket. -/
theorem Kept.bucket_of_absent (h : Kept db) (habsent : db.summaries monitorId = none)
    (b : Bucket) : ((db.summary monitorId).bucket b).Counts (db.bucket b) monitorId := by
  have hnone : (db.bucket b).filter (fun r ↦ r.monitorId = monitorId) = [] := by
    refine List.filter_eq_nil_iff.mpr ?_
    intro r hr hmon
    obtain ⟨r', hmem, hkey⟩ := List.mem_map.mp (h.copies b r hr)
    obtain ⟨e, he, rfl⟩ := List.mem_map.mp hmem
    have hpresent := h.present e he
    have hmon' : e.monitorId = monitorId :=
      ((Prod.mk.inj (Prod.mk.inj hkey).2).1).trans (by simpa using hmon)
    rw [hmon', habsent] at hpresent
    cases hpresent
  refine ⟨?_, ?_⟩
  · simp [countOf, hnone, Database.summary, habsent, coalesce]
  · simp [spaceOf, hnone, Database.summary, habsent, coalesce]

/-- The resynced counters are exact, the others stay. -/
theorem Kept.resync_counts (h : Kept db) (b : Bucket) :
    (((resyncMonitor monitorId db).summary monitorId).bucket b).Counts
      ((resyncMonitor monitorId db).bucket b) monitorId := by
  cases hs : db.summaries monitorId with
  | none =>
    have heq : resyncMonitor monitorId db = db := by
      simp only [resyncMonitor, Database.updateSummary, hs, Option.map_none]
      rw [← hs, Function.update_eq_self]
    rw [heq]
    exact h.bucket_of_absent hs b
  | some s =>
    rw [resyncMonitor, summary_updateSummary (by rw [hs]; rfl), if_pos rfl]
    exact ⟨rfl, rfl⟩

theorem summary_resync_of_ne {m : ℕ} (hm : m ≠ monitorId) :
    (resyncMonitor monitorId db).summary m = db.summary m := by
  simp [resyncMonitor, Database.summary, Database.updateSummary, hm]

theorem summary_resync (m : ℕ) :
    ((resyncMonitor monitorId db).summary m).total = (db.summary m).total ∧
      ((resyncMonitor monitorId db).summary m).archived = (db.summary m).archived := by
  by_cases hm : m = monitorId
  · subst hm
    cases hs : db.summaries m <;>
      simp [resyncMonitor, Database.summary, Database.updateSummary, hs]
  · rw [summary_resync_of_ne hm]
    exact ⟨rfl, rfl⟩

theorem resyncMonitor_kept (h : Kept db) : Kept (resyncMonitor monitorId db) := by
  refine ⟨h.nodup, h.copies, ?_, ?_, ?_⟩
  · intro e he
    rw [resyncMonitor, isSome_updateSummary]
    exact h.present e he
  · intro m
    rw [(summary_resync m).1]
    exact h.total m
  · intro b m
    by_cases hm : m = monitorId
    · rw [hm]
      exact (h.resync_counts b).covers
    · rw [summary_resync_of_ne hm]
      exact h.bucket b m

theorem resyncMonitor_keptArchive (harchive : KeptArchive db) :
    KeptArchive (resyncMonitor monitorId db) := by
  refine ⟨harchive.perm, ?_⟩
  intro m
  rw [(summary_resync m).2]
  exact harchive.counts m

end Other

section Steps

variable {db db' : Database}

theorem updateEvent_kept (h : Kept db) (harchive : KeptArchive db) (id : ℕ)
    (diskSpace : Option ℕ) (archived : Bool) :
    ∃ db', updateEvent max id diskSpace archived db = some db' ∧
      updateEvent unclipped id diskSpace archived db = some db' ∧ Kept db' ∧ KeptArchive db' := by
  cases hfind : db.events.find? (fun e ↦ e.eventId = id) with
  | none => exact ⟨db, by simp [updateEvent, hfind], by simp [updateEvent, hfind], h, harchive⟩
  | some old =>
    obtain ⟨rfl, l₁, l₂, hevents, h₁, h₂⟩ := exists_split h.nodup hfind
    have hmap := map_split ⟨⟨old.eventId, old.monitorId, diskSpace⟩, archived⟩ h₁ h₂
    rw [← hevents] at hmap
    simp only [updateEvent, hfind, hmap]
    exact eventUpdateTrigger_kept h harchive hevents h₁ h₂ rfl rfl

theorem deleteEvent_kept (h : Kept db) (harchive : KeptArchive db) (id : ℕ) :
    deleteEvent max id db = deleteEvent unclipped id db ∧
      Kept (deleteEvent unclipped id db) ∧ KeptArchive (deleteEvent unclipped id db) := by
  cases hfind : db.events.find? (fun e ↦ e.eventId = id) with
  | none =>
    simp only [deleteEvent, hfind]
    exact ⟨trivial, h, harchive⟩
  | some old =>
    obtain ⟨rfl, l₁, l₂, hevents, h₁, h₂⟩ := exists_split h.nodup hfind
    have hfilter := filter_split h₁ h₂
    have hrest : (removeEvent unclipped old db).events = db.events := rfl
    rw [← hevents, ← hrest] at hfilter
    simp only [deleteEvent, hfind, eventDeleteTrigger_eq,
      removeEvent_clip h harchive hevents h₁ h₂, hfilter]
    exact ⟨trivial, removeEvent_kept h hevents h₁ h₂,
      removeEvent_keptArchive h harchive hevents h₁ h₂⟩

theorem pruneBuckets_kept (aged : Bucket → Row → Bool) (bs : List Bucket) (h : Kept db)
    (harchive : KeptArchive db) :
    Kept (bs.foldl (fun db b ↦ pruneBucket b (aged b) db) db) ∧
      KeptArchive (bs.foldl (fun db b ↦ pruneBucket b (aged b) db) db) := by
  induction bs generalizing db with
  | nil => exact ⟨h, harchive⟩
  | cons b bs ih => exact ih (pruneBucket_kept h b (aged b)) harchive

theorem resyncMonitors_kept (monitors : List ℕ) (h : Kept db) (harchive : KeptArchive db) :
    Kept (monitors.foldl (fun db m ↦ resyncMonitor m db) db) ∧
      KeptArchive (monitors.foldl (fun db m ↦ resyncMonitor m db) db) := by
  induction monitors generalizing db with
  | nil => exact ⟨h, harchive⟩
  | cons m monitors ih => exact ih (resyncMonitor_kept h) (resyncMonitor_keptArchive harchive)

/-- The counters stay exact while those of other monitors are resynced. -/
theorem resyncMonitors_counts (monitors : List ℕ) (h : Kept db) {m : ℕ}
    (hm : m ∈ monitors ∨ ∀ b, ((db.summary m).bucket b).Counts (db.bucket b) m) (b : Bucket) :
    (((monitors.foldl (fun db m ↦ resyncMonitor m db) db).summary m).bucket b).Counts
      ((monitors.foldl (fun db m ↦ resyncMonitor m db) db).bucket b) m := by
  induction monitors generalizing db with
  | nil =>
    rcases hm with hm | hm
    · cases hm
    · exact hm b
  | cons m' monitors ih =>
    refine ih (resyncMonitor_kept h) ?_
    by_cases heq : m = m'
    · subst heq
      exact .inr h.resync_counts
    · rcases hm with hm | hm
      · exact .inl (List.mem_of_ne_of_mem heq hm)
      · refine .inr fun b ↦ ?_
        rw [summary_resync_of_ne heq]
        exact hm b

theorem zmstats_kept (aged : Bucket → Row → Bool) (h : Kept db) (harchive : KeptArchive db) :
    Kept (zmstats aged db) ∧ KeptArchive (zmstats aged db) := by
  obtain ⟨hkept, hkeptArchive⟩ := pruneBuckets_kept aged buckets h harchive
  exact resyncMonitors_kept _ hkept hkeptArchive

/-- Every statement keeps everything and clips nothing. -/
theorem step_kept (h : Kept db) (harchive : KeptArchive db) (op : Op) :
    step max db op = step unclipped db op ∧
      ∀ db' ∈ step max db op, Kept db' ∧ KeptArchive db' := by
  cases op with
  | create id monitorId =>
    refine ⟨rfl, ?_⟩
    intro db' hstep
    by_cases hid : ∃ e ∈ db.events, e.eventId = id
    · simp [step, createEvent, hid] at hstep
    · rw [step, createEvent_eq h hid, Option.mem_some] at hstep
      subst hstep
      exact ⟨created_kept h hid, created_keptArchive harchive⟩
  | update id diskSpace archived =>
    obtain ⟨db', hmax, hunclipped, hkept⟩ := updateEvent_kept h harchive id diskSpace archived
    refine ⟨hmax.trans hunclipped.symm, ?_⟩
    intro db'' hstep
    rw [step, hmax, Option.mem_some] at hstep
    exact hstep ▸ hkept
  | delete id =>
    obtain ⟨heq, hkept⟩ := deleteEvent_kept h harchive id
    refine ⟨congrArg some heq, ?_⟩
    intro db' hstep
    rw [step, heq, Option.mem_some] at hstep
    exact hstep ▸ hkept
  | prune b aged =>
    refine ⟨rfl, ?_⟩
    intro db' hstep
    rw [step, Option.mem_some] at hstep
    exact hstep ▸ ⟨pruneBucket_kept h b aged, harchive⟩
  | resync monitorId =>
    refine ⟨rfl, ?_⟩
    intro db' hstep
    rw [step, Option.mem_some] at hstep
    exact hstep ▸ ⟨resyncMonitor_kept h, resyncMonitor_keptArchive harchive⟩
  | zmstats aged =>
    refine ⟨rfl, ?_⟩
    intro db' hstep
    rw [step, Option.mem_some] at hstep
    exact hstep ▸ zmstats_kept aged h harchive

theorem run_kept (h : Kept db) (harchive : KeptArchive db) (ops : List Op) :
    Kept (run max db ops) ∧ KeptArchive (run max db ops) := by
  induction ops generalizing db with
  | nil => exact ⟨h, harchive⟩
  | cons op ops ih =>
    cases hstep : step max db op with
    | none => simpa [run, hstep] using ih h harchive
    | some db' =>
      obtain ⟨hkept, hkeptArchive⟩ := (step_kept h harchive op).2 db' hstep
      simpa [run, hstep] using ih hkept hkeptArchive

theorem empty_kept : Kept .empty ∧ KeptArchive .empty := by
  refine ⟨⟨List.nodup_nil, ?_, ?_, ?_, ?_⟩, .nil, ?_⟩
  · intro b r hr
    cases hr
  · intro e he
    cases he
  · exact fun m ↦ ⟨rfl, rfl⟩
  · exact fun b m ↦ ⟨le_rfl, le_rfl⟩
  · exact fun m ↦ ⟨rfl, rfl⟩

end Steps

/-- The totals and the archive are exact, the buckets are so or stale and too high. -/
structure ExactOrStaleHigh (db : Database) : Prop where
  total : ∀ m, (db.summary m).total.Counts db.rows m
  archived : ∀ m, (db.summary m).archived.Counts (archivedRows db.events) m
  rows : (db.archived.map Row.key).Perm ((archivedRows db.events).map Row.key)
  bucket : ∀ b m, ((db.summary m).bucket b).Covers (db.bucket b) m

theorem run_exactOrStaleHigh (ops : List Op) :
    ExactOrStaleHigh (run max .empty ops) ∧
      (∀ m b, (((resyncMonitor m (run max .empty ops)).summary m).bucket b).Counts
        ((resyncMonitor m (run max .empty ops)).bucket b) m) ∧
      (∀ aged, ∀ m ∈ touchedMonitors aged (run max .empty ops), ∀ b,
        (((zmstats aged (run max .empty ops)).summary m).bucket b).Counts
          ((zmstats aged (run max .empty ops)).bucket b) m) ∧
      ∀ op, step max (run max .empty ops) op = step unclipped (run max .empty ops) op := by
  obtain ⟨h, harchive⟩ := run_kept empty_kept.1 empty_kept.2 ops
  refine ⟨⟨h.total, harchive.counts, harchive.perm, h.bucket⟩, ?_, ?_, ?_⟩
  · intro m b
    exact h.resync_counts b
  · intro aged m hm b
    exact resyncMonitors_counts _ (pruneBuckets_kept aged buckets h harchive).1 (.inl hm) b
  · intro op
    exact (step_kept h harchive op).1

/-- A disk space that goes from null to 0 stays null in the archive. -/
theorem run_archivedRow_ne :
    ¬∀ ops : List Op, ∀ r, r ∈ (run max .empty ops).archived ↔
      r ∈ archivedRows (run max .empty ops).events := by
  intro h
  have hrow := (h [.create 1 7, .update 1 none true, .update 1 (some 0) true] ⟨1, 7, none⟩).mp
  revert hrow
  decide

end ZoneMinder.EventSummaries
