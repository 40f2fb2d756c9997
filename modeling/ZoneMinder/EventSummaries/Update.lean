import ZoneMinder.EventSummaries.Kept

namespace ZoneMinder.EventSummaries

section Update

variable {db : Database} {old new : Event} {l₁ l₂ : List Event}

theorem countOf_rows_split (m : ℕ) : countOf ((l₁ ++ old :: l₂).map Event.toRow) m =
    countOf (l₁.map Event.toRow) m + ((if old.monitorId = m then 1 else 0) +
      countOf (l₂.map Event.toRow) m) := by
  simp [countOf_cons]

theorem spaceOf_rows_split (m : ℕ) : spaceOf ((l₁ ++ old :: l₂).map Event.toRow) m =
    spaceOf (l₁.map Event.toRow) m + ((if old.monitorId = m then old.space else 0) +
      spaceOf (l₂.map Event.toRow) m) := by
  simp [spaceOf_cons]

theorem countOf_rows_replace (hevents : db.events = l₁ ++ old :: l₂)
    (hmon : new.monitorId = old.monitorId) (m : ℕ) :
    countOf ((l₁ ++ new :: l₂).map Event.toRow) m = countOf db.rows m := by
  rw [Database.rows, hevents, countOf_rows_split, countOf_rows_split, hmon]

theorem spaceOf_rows_replace (hevents : db.events = l₁ ++ old :: l₂)
    (hmon : new.monitorId = old.monitorId) (m : ℕ) :
    spaceOf ((l₁ ++ new :: l₂).map Event.toRow) m = spaceOf db.rows m +
      if old.monitorId = m then new.space - old.space else 0 := by
  rw [Database.rows, hevents, spaceOf_rows_split, spaceOf_rows_split, hmon]
  split_ifs <;> ring

/-- The buckets follow the disk space of the event. -/
theorem Kept.resize (h : Kept db) (hevents : db.events = l₁ ++ old :: l₂)
    (h₁ : ∀ e ∈ l₁, e.eventId ≠ old.eventId) (h₂ : ∀ e ∈ l₂, e.eventId ≠ old.eventId)
    (hid : new.eventId = old.eventId) (hmon : new.monitorId = old.monitorId)
    (hdiff : new.space - old.space ≠ 0) :
    Kept (resizeBuckets unclipped new old (new.space - old.space)
      { db with events := l₁ ++ new :: l₂ }) := by
  have hpresent : (db.summaries old.monitorId).isSome :=
    h.present old (by simp [hevents])
  have hcopies := h.copies_event hevents h₁ h₂
  have hsummary (m : ℕ) := @summary_updateSummary
    { db with
      events := l₁ ++ new :: l₂
      bucket := fun b ↦ setDiskSpace (db.bucket b) new.eventId new.diskSpace }
    old.monitorId m hpresent
  have hcount := countOf_rows_replace hevents hmon
  have hspace := spaceOf_rows_replace hevents hmon
  refine ⟨?_, ?_, ?_, ?_, ?_⟩
  · have hn := h.nodup
    rw [hevents] at hn
    simpa [resizeBuckets, Database.updateSummary, hid] using hn
  · intro b r hr
    obtain ⟨r', hr', rfl⟩ := List.mem_map.mp hr
    obtain ⟨e, he, hkey⟩ := List.mem_map.mp (h.copies b r' hr')
    by_cases hr'' : r'.eventId = new.eventId
    · have hmon' := (hcopies b r' hr' (hr''.trans hid)).1
      rw [if_pos hr'']
      refine List.mem_map.mpr ⟨new.toRow, ?_, ?_⟩
      · simp [Database.rows, resizeBuckets, Database.updateSummary]
      · simp [Row.key, Row.space, hmon', hmon, hr'']
    · rw [if_neg hr'']
      refine List.mem_map.mpr ⟨e, ?_, hkey⟩
      rw [Database.rows, hevents] at he
      have hne : e ≠ old.toRow := by
        intro heq
        rw [heq, Row.key, Row.key, Prod.mk.injEq] at hkey
        exact hr'' (hkey.1.symm.trans hid.symm)
      simp only [List.map_append, List.map_cons, List.mem_append, List.mem_cons, hne,
        false_or] at he
      simp only [Database.rows, resizeBuckets, Database.updateSummary, List.map_append,
        List.map_cons, List.mem_append, List.mem_cons]
      exact he.imp_right .inr
  · intro e he
    rw [resizeBuckets, isSome_updateSummary]
    have he' : e = new ∨ e ∈ db.events := by
      simp only [resizeBuckets, Database.updateSummary, List.mem_append, List.mem_cons] at he
      rw [hevents, List.mem_append, List.mem_cons]
      tauto
    rcases he' with rfl | he'
    · rw [hmon]
      exact hpresent
    · exact h.present e he'
  · intro m
    rw [resizeBuckets, hsummary]
    by_cases hm : m = old.monitorId
    · rw [if_pos hm]
      refine (h.total m).addSpace (hcount m) ((hspace m).trans ?_)
      rw [if_pos hm.symm]
    · rw [if_neg hm]
      refine (h.total m).congr (hcount m) ((hspace m).trans ?_)
      rw [if_neg (Ne.symm hm), add_zero]
  · intro b m
    rw [resizeBuckets, hsummary]
    have hbucketCount := (hcopies b).countOf_setDiskSpace new.diskSpace m
    have hbucketSpace := (hcopies b).spaceOf_setDiskSpace new.diskSpace m hdiff
    rw [← hid] at hbucketCount hbucketSpace
    by_cases hm : m = old.monitorId
    · rw [if_pos hm]
      refine (h.bucket b m).addSpace hbucketCount (hbucketSpace.trans ?_)
      rw [if_pos hm.symm]
      rfl
    · rw [if_neg hm]
      refine (h.bucket b m).congr hbucketCount (hbucketSpace.trans ?_)
      rw [if_neg (Ne.symm hm), add_zero]

/-- A change between null and 0 is none. -/
theorem Kept.replace (h : Kept db) (hevents : db.events = l₁ ++ old :: l₂)
    (hid : new.eventId = old.eventId) (hmon : new.monitorId = old.monitorId)
    (hspace : new.space = old.space) : Kept { db with events := l₁ ++ new :: l₂ } := by
  have hkeys : ((l₁ ++ new :: l₂).map Event.toRow).map Row.key = db.rows.map Row.key := by
    simp [Database.rows, hevents, Row.key, hid, hmon, hspace]
  refine ⟨?_, ?_, ?_, ?_, ?_⟩
  · have hn := h.nodup
    rw [hevents] at hn
    simpa [hid] using hn
  · intro b r hr
    have hkey := h.copies b r hr
    rw [← hkeys] at hkey
    exact hkey
  · intro e he
    simp only [List.mem_append, List.mem_cons] at he
    rcases he with he | he | he
    · exact h.present e (by simp [hevents, he])
    · have hold := h.present old (by simp [hevents])
      rwa [← hmon, ← he] at hold
    · exact h.present e (by simp [hevents, he])
  · intro m
    refine (h.total m).congr (countOf_rows_replace hevents hmon m)
      ((spaceOf_rows_replace hevents hmon m).trans ?_)
    rw [hspace, sub_self, ite_self, add_zero]
  · exact h.bucket

theorem Kept.resizeBuckets_eq (h : Kept db) (hevents : db.events = l₁ ++ old :: l₂)
    (h₁ : ∀ e ∈ l₁, e.eventId ≠ old.eventId) (h₂ : ∀ e ∈ l₂, e.eventId ≠ old.eventId)
    (hid : new.eventId = old.eventId) (hmon : new.monitorId = old.monitorId)
    (hdiff : new.space - old.space ≠ 0) :
    resizeBuckets max new old (new.space - old.space) { db with events := l₁ ++ new :: l₂ } =
      resizeBuckets unclipped new old (new.space - old.space)
        { db with events := l₁ ++ new :: l₂ } := by
  have hspace := spaceOf_rows_replace hevents hmon old.monitorId
  rw [if_pos rfl] at hspace
  refine updateSummary_congr ?_
  have htotal := (h.total old.monitorId).covers.addSpace_eq hspace
  have hbucket (b : Bucket) :
      ((db.summary old.monitorId).bucket b).addSpace max
          (changedRows (db.bucket b) new.eventId new.diskSpace * (new.space - old.space)) =
        ((db.summary old.monitorId).bucket b).addSpace unclipped
          (changedRows (db.bucket b) new.eventId new.diskSpace * (new.space - old.space)) := by
    have hrows := (h.copies_event hevents h₁ h₂ b).spaceOf_setDiskSpace new.diskSpace
      old.monitorId hdiff
    rw [if_pos rfl, ← hid] at hrows
    exact (h.bucket b old.monitorId).addSpace_eq hrows
  rw [Summary.mk.injEq]
  exact ⟨htotal, rfl, funext hbucket⟩

/-- What the first part of the update trigger leaves to the second. -/
structure Resized (db mid : Database) (old new : Event) (l₁ l₂ : List Event) : Prop where
  kept : Kept mid
  events : mid.events = l₁ ++ new :: l₂
  archived : mid.archived = db.archived
  counter : ∀ m, (mid.summary m).archived = (db.summary m).archived
  present : (mid.summaries old.monitorId).isSome

theorem exists_resized (h : Kept db) (hevents : db.events = l₁ ++ old :: l₂)
    (h₁ : ∀ e ∈ l₁, e.eventId ≠ old.eventId) (h₂ : ∀ e ∈ l₂, e.eventId ≠ old.eventId)
    (hid : new.eventId = old.eventId) (hmon : new.monitorId = old.monitorId) :
    ∃ mid, Resized db mid old new l₁ l₂ ∧
      (if new.space - old.space ≠ 0 then
        resizeBuckets max new old (new.space - old.space) { db with events := l₁ ++ new :: l₂ }
      else { db with events := l₁ ++ new :: l₂ }) = mid ∧
      (if new.space - old.space ≠ 0 then
        resizeBuckets unclipped new old (new.space - old.space)
          { db with events := l₁ ++ new :: l₂ }
      else { db with events := l₁ ++ new :: l₂ }) = mid := by
  have hpresent : (db.summaries old.monitorId).isSome := h.present old (by simp [hevents])
  by_cases hdiff : new.space - old.space ≠ 0
  · refine ⟨_, ⟨h.resize hevents h₁ h₂ hid hmon hdiff, rfl, rfl, ?_, ?_⟩, ?_, if_pos hdiff⟩
    · intro m
      have hsummary := @summary_updateSummary
        { db with
          events := l₁ ++ new :: l₂
          bucket := fun b ↦ setDiskSpace (db.bucket b) new.eventId new.diskSpace }
        old.monitorId m hpresent
      rw [resizeBuckets, hsummary]
      by_cases hm : m = old.monitorId
      · rw [if_pos hm]
        rfl
      · rw [if_neg hm]
        rfl
    · rw [resizeBuckets, isSome_updateSummary]
      exact hpresent
    · rw [if_pos hdiff, h.resizeBuckets_eq hevents h₁ h₂ hid hmon hdiff]
  · refine ⟨_, ⟨h.replace hevents hid hmon (by omega), rfl, rfl, fun m ↦ rfl, hpresent⟩,
      if_neg hdiff, if_neg hdiff⟩

namespace Resized

variable {mid : Database}

/-- The second part touches the archive and its columns only. -/
theorem kept_update (h : Resized db mid old new l₁ l₂) (rows : List Row)
    (f : Counter → Counter) :
    Kept ({ mid with archived := rows }.updateSummary old.monitorId
      fun s ↦ { s with archived := f s.archived }) := by
  refine h.kept.of_eq rfl rfl ?_ ?_
  · intro m hm
    rwa [isSome_updateSummary]
  · intro m
    have hsummary := @summary_updateSummary { mid with archived := rows } old.monitorId m h.present
    rw [hsummary]
    by_cases hm : m = old.monitorId
    · rw [if_pos hm]
      exact ⟨rfl, rfl⟩
    · rw [if_neg hm]
      exact ⟨rfl, rfl⟩

theorem keptArchive_update (h : Resized db mid old new l₁ l₂) (rows : List Row)
    (f : Counter → Counter)
    (harchives : Archives rows
      (fun m ↦ if m = old.monitorId then f (db.summary m).archived else (db.summary m).archived)
      (archivedRows (l₁ ++ new :: l₂))) :
    KeptArchive ({ mid with archived := rows }.updateSummary old.monitorId
      fun s ↦ { s with archived := f s.archived }) := by
  rw [← h.events] at harchives
  refine ⟨harchives.perm, ?_⟩
  intro m
  have hsummary := @summary_updateSummary { mid with archived := rows } old.monitorId m h.present
  have hcounts := harchives.counts m
  simp only [hsummary]
  by_cases hm : m = old.monitorId
  · rw [if_pos hm] at hcounts ⊢
    rw [← h.counter] at hcounts
    exact hcounts
  · rw [if_neg hm] at hcounts ⊢
    rw [← h.counter] at hcounts
    exact hcounts

theorem keptArchive_self (h : Resized db mid old new l₁ l₂)
    (harchives : Archives db.archived (fun m ↦ (db.summary m).archived)
      (archivedRows (l₁ ++ new :: l₂))) : KeptArchive mid := by
  rw [← h.events, ← h.archived] at harchives
  simp only [← h.counter] at harchives
  exact harchives

end Resized

/-- The update trigger succeeds, clips nothing and keeps everything. -/
theorem eventUpdateTrigger_kept (h : Kept db) (harchive : KeptArchive db)
    (hevents : db.events = l₁ ++ old :: l₂)
    (h₁ : ∀ e ∈ l₁, e.eventId ≠ old.eventId) (h₂ : ∀ e ∈ l₂, e.eventId ≠ old.eventId)
    (hid : new.eventId = old.eventId) (hmon : new.monitorId = old.monitorId) :
    ∃ db', eventUpdateTrigger max new old { db with events := l₁ ++ new :: l₂ } = some db' ∧
      eventUpdateTrigger unclipped new old { db with events := l₁ ++ new :: l₂ } = some db' ∧
      Kept db' ∧ KeptArchive db' := by
  obtain ⟨mid, hmid, hmax, hunclipped⟩ := exists_resized h hevents h₁ h₂ hid hmon
  have hne₁ := eventId_ne_of_mem_archivedRows h₁
  have hne₂ := eventId_ne_of_mem_archivedRows h₂
  have hold : Archives db.archived (fun m ↦ (db.summary m).archived)
      (archivedRows (l₁ ++ old :: l₂)) := hevents ▸ harchive
  rw [archivedRows_split] at hold
  simp only [eventUpdateTrigger, hmax, hunclipped]
  cases ho : old.archived with
  | false =>
    rw [ho, if_neg Bool.false_ne_true] at hold
    cases hn : new.archived with
    | false =>
      refine ⟨mid, by simp, by simp, hmid.kept, hmid.keptArchive_self ?_⟩
      rwa [archivedRows_split, hn, if_neg Bool.false_ne_true]
    | true =>
      have hnot := harchive.not_mem hevents h₁ h₂ ho
      rw [← hmid.archived, ← hid] at hnot
      let counted (c : Counter) : Counter :=
        ⟨some (coalesce c.events + 1), some (coalesce c.diskSpace + new.space)⟩
      have harchived : archive new mid =
          some ({ mid with archived := mid.archived ++ [new.toRow] }.updateSummary old.monitorId
            fun s ↦ { s with archived := counted s.archived }) := by
        rw [archive, if_neg hnot, hmon]
        exact congrArg some (@upsertSummary_eq
          { mid with archived := mid.archived ++ [new.toRow] } old.monitorId hmid.present _ _)
      refine ⟨_, ?_, ?_, hmid.kept_update (mid.archived ++ [new.toRow]) counted,
        hmid.keptArchive_update (mid.archived ++ [new.toRow]) counted ?_⟩
      · simp [harchived]
      · simp [harchived]
      · rw [archivedRows_split, hn, if_pos rfl, hmid.archived, ← hmon]
        exact hold.insert
  | true =>
    rw [ho, if_pos rfl] at hold
    have hcounts := (hold.counts old.monitorId).covers
    rw [← hmid.counter] at hcounts
    cases hn : new.archived with
    | false =>
      have hclip : unarchive max old mid = unarchive unclipped old mid := by
        refine updateSummary_congr ?_
        have heq := hcounts.remove_eq ((countOf_without old.monitorId).trans (by rw [if_pos rfl]))
          ((spaceOf_without old.monitorId).trans (by rw [if_pos rfl]))
        exact congrArg (fun c ↦ { mid.summary old.monitorId with archived := c }) heq
      refine ⟨unarchive unclipped old mid, by simp [hclip], by simp,
        hmid.kept_update _ (fun c ↦ c.remove unclipped 1 old.space),
        hmid.keptArchive_update _ (fun c ↦ c.remove unclipped 1 old.space) ?_⟩
      rw [archivedRows_split, hn, if_neg Bool.false_ne_true, hmid.archived]
      exact hold.delete hne₁ hne₂
    | true =>
      have hset := hold.setDiskSpace hne₁ hne₂ new.diskSpace
      have hnew : ⟨old.eventId, old.monitorId, new.diskSpace⟩ = new.toRow := by
        rw [← hid, ← hmon]
      rw [hnew] at hset
      by_cases hdiff : new.space - old.space = 0
      · refine ⟨mid, by simp [hdiff], by simp [hdiff], hmid.kept, hmid.keptArchive_self ?_⟩
        have hspace : new.space = old.space := by omega
        rw [archivedRows_split, hn, if_pos rfl]
        refine ⟨?_, fun m ↦ (hold.counts m).congr ?_ ?_⟩
        · have hperm := hold.perm
          simpa [Row.key, hid, hmon, hspace] using hperm
        · simp [countOf_cons, hmon]
        · simp [spaceOf_cons, hmon, hspace]
      · have hclip : resizeArchived max new old (new.space - old.space) mid =
            resizeArchived unclipped new old (new.space - old.space) mid := by
          refine updateSummary_congr ?_
          have heq := @Counter.Covers.addSpace_eq _ _
            (archivedRows l₁ ++ new.toRow :: archivedRows l₂) _ (new.space - old.space) hcounts (by
              simp only [spaceOf_append, spaceOf_cons, hmon, if_true]
              ring)
          exact congrArg (fun c ↦ { mid.summary old.monitorId with archived := c }) heq
        refine ⟨resizeArchived unclipped new old (new.space - old.space) mid, by simp [hdiff, hclip],
          by simp [hdiff], hmid.kept_update _ (fun c ↦ c.addSpace unclipped (new.space - old.space)),
          hmid.keptArchive_update _ (fun c ↦ c.addSpace unclipped (new.space - old.space)) ?_⟩
        rw [archivedRows_split, hn, if_pos rfl, hmid.archived, hid]
        exact hset

end Update

end ZoneMinder.EventSummaries
