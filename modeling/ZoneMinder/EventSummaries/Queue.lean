import ZoneMinder.EventSummaries.Exact
import ZoneMinder.Lib.Run

namespace ZoneMinder.EventSummaries

/-- What the constructor of an event leaves to the queue of its process. -/
inductive Statement
  | insert (b : Bucket) (eventId monitorId : ℕ)
  | bump (monitorId : ℕ)
  deriving DecidableEq

def Statement.monitorId : Statement → ℕ
  | .insert _ _ monitorId => monitorId
  | .bump monitorId => monitorId

def Statement.insertsFor (id : ℕ) : Statement → Bool
  | .insert _ eventId _ => eventId = id
  | .bump _ => false

/-- An insertion fails where the key is taken, which the queue does not mind. -/
def Statement.execute (db : Database) : Statement → Database
  | .insert b eventId monitorId =>
    { db with
      bucket :=
        Function.update db.bucket b (insertRow (db.bucket b) ⟨eventId, monitorId, none⟩) }
  | .bump monitorId =>
    db.upsertSummary monitorId { total := ⟨some 1, none⟩, bucket := fun _ ↦ ⟨some 1, none⟩ }
      Summary.bump

def eventStatements (id monitorId : ℕ) : List Statement :=
  [.insert .hour id monitorId, .insert .day id monitorId, .insert .week id monitorId,
    .insert .month id monitorId, .bump monitorId]

/-- `INSERT INTO Events …`; the disk space is left to its default. -/
def insertEvent (id monitorId : ℕ) (db : Database) : Database :=
  { db with events := db.events.concat ⟨⟨id, monitorId, none⟩, false⟩ }

/-- `UPDATE Events SET …, DiskSpace = diskSpace WHERE Id = id` -/
def closeEvent (id diskSpace : ℕ) (db : Database) : Option Database :=
  match db.events.find? (fun e ↦ e.eventId = id) with
  | none => some db
  | some old => updateEvent max id (some diskSpace) old.archived db

/-- Where nothing comes between them, the statements make the event at once. -/
theorem createEvent_eq_execute {db : Database} {id monitorId : ℕ}
    (hid : ¬∃ e ∈ db.events, e.eventId = id) :
    createEvent id monitorId db =
      some ((eventStatements id monitorId).foldl Statement.execute
        (insertEvent id monitorId db)) := by
  rw [createEvent, if_neg hid, Option.some.injEq]
  simp only [eventStatements, insertEvent, Statement.execute, List.foldl_cons, List.foldl_nil]
  have hbucket : (fun b ↦ insertRow (db.bucket b) ⟨id, monitorId, none⟩) =
      Function.update (Function.update (Function.update (Function.update db.bucket
        .hour (insertRow (db.bucket .hour) ⟨id, monitorId, none⟩))
        .day (insertRow (db.bucket .day) ⟨id, monitorId, none⟩))
        .week (insertRow (db.bucket .week) ⟨id, monitorId, none⟩))
        .month (insertRow (db.bucket .month) ⟨id, monitorId, none⟩) := by
    funext b
    cases b <;> simp [Function.update]
  rw [hbucket]
  rfl

structure Queued where
  process : ℕ
  statement : Statement
  deriving DecidableEq

/-- The processes write to one database, each through a queue of its own. -/
structure Writers where
  db : Database
  nextId : ℕ
  /-- what constructors that still run have to push -/
  unpushed : List Queued
  queue : List Queued

namespace Writers

inductive Op
  | create (process monitorId : ℕ)
  | push (monitorId : ℕ)
  | drain (process : ℕ)
  | close (id diskSpace : ℕ)
  | delete (id : ℕ)
  deriving DecidableEq

/-- Every monitor has one thread that creates its events, every process one that drains. -/
def step (s : Writers) : Op → Option Writers
  | .create process monitorId =>
    some { s with
      db := insertEvent s.nextId monitorId s.db
      nextId := s.nextId + 1
      unpushed := s.unpushed ++ (eventStatements s.nextId monitorId).map (Queued.mk process) }
  | .push monitorId =>
    (s.unpushed.find? (fun q ↦ q.statement.monitorId = monitorId)).map fun q ↦
      { s with
        unpushed := s.unpushed.eraseP (fun q ↦ q.statement.monitorId = monitorId)
        queue := s.queue ++ [q] }
  | .drain process =>
    (s.queue.find? (fun q ↦ q.process = process)).map fun q ↦
      { s with
        db := q.statement.execute s.db
        queue := s.queue.eraseP (fun q ↦ q.process = process) }
  | .close id diskSpace => (closeEvent id diskSpace s.db).map fun db ↦ { s with db }
  | .delete id => some { s with db := deleteEvent max id s.db }

def outstanding (s : Writers) : List Statement := (s.unpushed ++ s.queue).map Queued.statement

/-- Events of a monitor that its row does not count yet. -/
def uncounted (s : Writers) (monitorId : ℕ) : ℕ := s.outstanding.count (.bump monitorId)

def Inserted (s : Writers) (id : ℕ) : Prop :=
  ∀ st ∈ s.outstanding, !st.insertsFor id

section

-- The disk space itself, or what `COALESCE` makes of it.
variable {α : Type} (view : Option ℕ → α)

/-- A close changes no disk space, or comes when the bucket rows and the row of the monitor are
there; a deletion comes when its bucket rows are there and the monitor counts an event. -/
def Timely (s : Writers) : Op → Prop
  | .close id diskSpace => ∀ e ∈ s.db.events, e.eventId = id →
      view (some diskSpace) = view e.diskSpace ∨
        (diskSpace : ℤ) ≠ e.space ∧ s.Inserted id ∧ (s.db.summaries e.monitorId).isSome
  | .delete id => ∀ e ∈ s.db.events, e.eventId = id →
      s.Inserted id ∧ 1 ≤ coalesce (s.db.summary e.monitorId).total.events
  | _ => True

instance (s : Writers) (id : ℕ) : Decidable (s.Inserted id) :=
  inferInstanceAs (Decidable (∀ st ∈ s.outstanding, !st.insertsFor id))

instance [DecidableEq α] (s : Writers) : ∀ op, Decidable (Timely view s op)
  | .create _ _ => .isTrue trivial
  | .push _ => .isTrue trivial
  | .drain _ => .isTrue trivial
  | .close id diskSpace => inferInstanceAs (Decidable (∀ e ∈ s.db.events, e.eventId = id →
      view (some diskSpace) = view e.diskSpace ∨
        (diskSpace : ℤ) ≠ e.space ∧ s.Inserted id ∧ (s.db.summaries e.monitorId).isSome))
  | .delete id => inferInstanceAs (Decidable (∀ e ∈ s.db.events, e.eventId = id →
      s.Inserted id ∧ 1 ≤ coalesce (s.db.summary e.monitorId).total.events))

/-- The row belongs to an event and has its disk space. -/
def Copy (events : List Event) (r : Row) : Prop :=
  ∃ e ∈ events, e.eventId = r.eventId ∧ e.monitorId = r.monitorId ∧
    view e.diskSpace = view r.diskSpace

/-- The totals are those of the events, and the bucket rows are copies of events. -/
structure Consistent (s : Writers) : Prop where
  nodup : (s.db.events.map fun e ↦ e.eventId).Nodup
  fresh : ∀ e ∈ s.db.events, e.eventId < s.nextId
  total : ∀ m, (s.db.summary m).total.Counts s.db.rows m
  bucket : ∀ b, ∀ r ∈ s.db.bucket b, Copy view s.db.events r

/-- What holds of it while statements are outstanding. -/
structure Tracked (s : Writers) : Prop where
  nodup : (s.db.events.map fun e ↦ e.eventId).Nodup
  fresh : ∀ e ∈ s.db.events, e.eventId < s.nextId
  events : ∀ m, coalesce (s.db.summary m).total.events + s.uncounted m = countOf s.db.rows m
  diskSpace : ∀ m, coalesce (s.db.summary m).total.diskSpace = spaceOf s.db.rows m
  bucket : ∀ b, ∀ r ∈ s.db.bucket b, Copy view s.db.events r
  inserts : ∀ b id monitorId, .insert b id monitorId ∈ s.outstanding →
    Copy view s.db.events ⟨id, monitorId, none⟩

end

section Lists

variable {α : Type} {p : α → Bool} {l : List α} {a : α}

theorem perm_eraseP (h : l.find? p = some a) : l.Perm (a :: l.eraseP p) := by
  obtain ⟨ha, l₁, l₂, rfl, hl₁⟩ := List.find?_eq_some_iff_append.mp h
  have hnot : ∀ x ∈ l₁, ¬p x := fun x hx ↦ by simpa using hl₁ x hx
  rw [List.eraseP_append_right _ hnot, List.eraseP_cons_of_pos ha]
  exact List.perm_middle

theorem mem_insertRow {rows : List Row} {r r' : Row} (h : r ∈ insertRow rows r') :
    r ∈ rows ∨ r = r' := by
  unfold insertRow at h
  split_ifs at h
  · exact .inl h
  · simpa using h

end Lists

section

variable {α : Type} {view : Option ℕ → α} {s t : Writers} {events : List Event} {r : Row}

theorem Copy.mono {events' : List Event} (h : Copy view events r) (hsub : events ⊆ events') :
    Copy view events' r := by
  obtain ⟨e, he, hcopy⟩ := h
  exact ⟨e, hsub he, hcopy⟩

theorem Consistent.tracked (h : Consistent view s) (hunpushed : s.unpushed = [])
    (hqueue : s.queue = []) : Tracked view s := by
  have hnone : s.outstanding = [] := by simp [outstanding, hunpushed, hqueue]
  refine ⟨h.nodup, h.fresh, ?_, fun m ↦ (h.total m).diskSpace, h.bucket, ?_⟩
  · intro m
    simpa [uncounted, hnone] using (h.total m).events
  · intro b id monitorId hmem
    simp [hnone] at hmem

theorem Tracked.consistent (h : Tracked view s) (hunpushed : s.unpushed = [])
    (hqueue : s.queue = []) : Consistent view s := by
  have hnone : s.outstanding = [] := by simp [outstanding, hunpushed, hqueue]
  refine ⟨h.nodup, h.fresh, ?_, h.bucket⟩
  intro m
  refine ⟨?_, h.diskSpace m⟩
  simpa [uncounted, hnone] using h.events m

theorem create_tracked (h : Tracked view s) (process monitorId : ℕ) :
    Tracked view { s with
      db := insertEvent s.nextId monitorId s.db
      nextId := s.nextId + 1
      unpushed := s.unpushed ++
        (eventStatements s.nextId monitorId).map (Queued.mk process) } := by
  set t : Writers := { s with
    db := insertEvent s.nextId monitorId s.db
    nextId := s.nextId + 1
    unpushed := s.unpushed ++ (eventStatements s.nextId monitorId).map (Queued.mk process) }
  have hevents : t.db.events = s.db.events ++ [⟨⟨s.nextId, monitorId, none⟩, false⟩] :=
    List.concat_eq_append
  have hrows : t.db.rows = s.db.rows ++ [⟨s.nextId, monitorId, none⟩] := by
    simp [Database.rows, hevents]
  have hout : t.outstanding.Perm (s.outstanding ++ eventStatements s.nextId monitorId) := by
    have hmap : ((eventStatements s.nextId monitorId).map (Queued.mk process)).map
        Queued.statement = eventStatements s.nextId monitorId := rfl
    simp only [outstanding, t, List.map_append, hmap, List.append_assoc]
    exact List.perm_append_comm.append_left _
  have hsub : s.db.events ⊆ t.db.events := by simp [hevents]
  refine ⟨?_, ?_, ?_, ?_, ?_, ?_⟩
  · rw [hevents, List.map_append]
    refine List.nodup_append.mpr ⟨h.nodup, List.nodup_singleton _, ?_⟩
    intro a ha b hb heq
    obtain ⟨e, he, rfl⟩ := List.mem_map.mp ha
    have hlt := h.fresh e he
    simp only [List.map_cons, List.map_nil, List.mem_singleton] at hb
    omega
  · intro e he
    rw [hevents, List.mem_append, List.mem_singleton] at he
    rcases he with he | rfl
    · exact Nat.lt_succ_of_lt (h.fresh e he)
    · exact Nat.lt_succ_self _
  · intro m
    have hbumps : (eventStatements s.nextId monitorId).count (.bump m) =
        if monitorId = m then 1 else 0 := by
      simp [eventStatements, List.count_cons]
    have hone : countOf [⟨s.nextId, monitorId, none⟩] m = if monitorId = m then 1 else 0 := by
      rw [countOf_cons]
      simp [countOf]
    have hm := h.events m
    rw [uncounted, hout.count_eq, List.count_append, hbumps, hrows, countOf_append, hone, ← hm]
    simp only [uncounted]
    push_cast
    exact (add_assoc _ _ _).symm
  · intro m
    have hzero : spaceOf [⟨s.nextId, monitorId, none⟩] m = 0 := by
      rw [spaceOf_cons]
      simp [Row.space, spaceOf]
    rw [hrows, spaceOf_append, hzero, add_zero]
    exact h.diskSpace m
  · exact fun b r hr ↦ (h.bucket b r hr).mono hsub
  · intro b id monitorId' hmem
    rcases List.mem_append.mp (hout.subset hmem) with hmem | hmem
    · exact (h.inserts b id monitorId' hmem).mono hsub
    · have hnew : id = s.nextId ∧ monitorId' = monitorId := by
        cases b <;> simpa [eventStatements] using hmem
      exact ⟨⟨⟨s.nextId, monitorId, none⟩, false⟩, by simp [hevents], hnew.1.symm, hnew.2.symm,
        rfl⟩

theorem summary_bump (db : Database) (monitorId m : ℕ) :
    ((Statement.bump monitorId).execute db).summary m =
      if m = monitorId then (db.summary m).bump else db.summary m :=
  @summary_upsertSummary db monitorId m _ Summary.bump (.inr rfl)

theorem push_tracked (h : Tracked view s) (hdb : t.db = s.db) (hid : t.nextId = s.nextId)
    (hout : t.outstanding.Perm s.outstanding) : Tracked view t := by
  refine ⟨by rw [hdb]; exact h.nodup, by rw [hdb, hid]; exact h.fresh, ?_, ?_, ?_, ?_⟩
  · intro m
    rw [uncounted, hout.count_eq, hdb]
    exact h.events m
  · rw [hdb]
    exact h.diskSpace
  · rw [hdb]
    exact h.bucket
  · intro b id monitorId hmem
    rw [hdb]
    exact h.inserts b id monitorId (hout.subset hmem)

theorem drain_tracked (h : Tracked view s) {st : Statement} (hdb : t.db = st.execute s.db)
    (hid : t.nextId = s.nextId) (hout : s.outstanding.Perm (st :: t.outstanding)) :
    Tracked view t := by
  have hevents : t.db.events = s.db.events := by
    rw [hdb]
    cases st <;> rfl
  have hrows : t.db.rows = s.db.rows := congrArg (List.map Event.toRow) hevents
  have hinserts (b : Bucket) (id monitorId : ℕ) (hmem : .insert b id monitorId ∈ t.outstanding) :
      Copy view t.db.events ⟨id, monitorId, none⟩ := by
    rw [hevents]
    exact h.inserts b id monitorId (hout.mem_iff.mpr (List.mem_cons_of_mem _ hmem))
  refine ⟨by rw [hevents]; exact h.nodup, by rw [hevents, hid]; exact h.fresh, ?_, ?_, ?_,
    hinserts⟩
  · intro m
    have hm := h.events m
    rw [uncounted, hout.count_eq, List.count_cons] at hm
    rw [hrows, ← hm, hdb, uncounted]
    cases st with
    | insert b id monitorId =>
      simp [Statement.execute, Database.summary]
    | bump monitorId =>
      rw [summary_bump]
      by_cases heq : m = monitorId
      · subst heq
        simp [Summary.bump, coalesce]
        ring
      · simp [heq, Ne.symm heq]
  · intro m
    rw [hrows, ← h.diskSpace m, hdb]
    cases st with
    | insert b id monitorId => rfl
    | bump monitorId =>
      rw [summary_bump]
      by_cases heq : m = monitorId
      · rw [if_pos heq]
        rfl
      · rw [if_neg heq]
  · intro b r hr
    rw [hevents]
    cases st with
    | insert b' id monitorId =>
      rw [hdb] at hr
      by_cases heq : b = b'
      · subst heq
        simp only [Statement.execute, Function.update_self] at hr
        rcases mem_insertRow hr with hr | rfl
        · exact h.bucket b r hr
        · exact h.inserts b id monitorId (hout.mem_iff.mpr List.mem_cons_self)
      · simp only [Statement.execute, ne_eq, heq, not_false_eq_true, Function.update_of_ne] at hr
        exact h.bucket b r hr
    | bump monitorId =>
      rw [hdb] at hr
      exact h.bucket b r hr

end

section Close

variable {α : Type} {view : Option ℕ → α} {s : Writers} {old new : Event} {l₁ l₂ : List Event}
  {r : Row}

theorem Copy.replace (h : Copy view (l₁ ++ old :: l₂) r) (hid : new.eventId = old.eventId)
    (hmon : new.monitorId = old.monitorId)
    (hsame : r.eventId ≠ old.eventId ∨ view new.diskSpace = view old.diskSpace) :
    Copy view (l₁ ++ new :: l₂) r := by
  obtain ⟨e, he, heid, hemon, hespace⟩ := h
  by_cases heq : e = old
  · subst heq
    have hview := hsame.resolve_left fun hne ↦ hne heid.symm
    exact ⟨new, by simp, hid.trans heid, hmon.trans hemon, hview.trans hespace⟩
  · have he' : e ∈ l₁ ++ new :: l₂ := by
      simp only [List.mem_append, List.mem_cons, heq, false_or] at he ⊢
      tauto
    exact ⟨e, he', heid, hemon, hespace⟩

theorem nodup_replace (h : (s.db.events.map fun e ↦ e.eventId).Nodup)
    (hevents : s.db.events = l₁ ++ old :: l₂) (hid : new.eventId = old.eventId) :
    ((l₁ ++ new :: l₂).map fun e ↦ e.eventId).Nodup := by
  rw [hevents] at h
  simpa [hid] using h

theorem fresh_replace (h : ∀ e ∈ s.db.events, e.eventId < s.nextId)
    (hevents : s.db.events = l₁ ++ old :: l₂) (hid : new.eventId = old.eventId) :
    ∀ e ∈ l₁ ++ new :: l₂, e.eventId < s.nextId := by
  rw [hevents] at h
  intro e he
  rcases List.mem_append.mp he with he | he
  · exact h e (by simp [he])
  · rcases List.mem_cons.mp he with rfl | he
    · rw [hid]
      exact h old (by simp)
    · exact h e (by simp [he])

theorem replace_tracked (h : Tracked view s) (hevents : s.db.events = l₁ ++ old :: l₂)
    (hid : new.eventId = old.eventId) (hmon : new.monitorId = old.monitorId)
    (hview : view new.diskSpace = view old.diskSpace) (hspace : new.space = old.space) :
    Tracked view { s with db := { s.db with events := l₁ ++ new :: l₂ } } := by
  refine ⟨nodup_replace (s := s) h.nodup hevents hid, fresh_replace (s := s) h.fresh hevents hid, ?_, ?_, ?_, ?_⟩
  · intro m
    exact (h.events m).trans (countOf_rows_replace hevents hmon m).symm
  · intro m
    refine (h.diskSpace m).trans (Eq.symm ?_)
    refine (spaceOf_rows_replace hevents hmon m).trans ?_
    rw [hspace, sub_self, ite_self, add_zero]
  · intro b r hr
    have hcopy := h.bucket b r hr
    rw [hevents] at hcopy
    exact hcopy.replace hid hmon (.inr hview)
  · intro b id monitorId hmem
    have hcopy := h.inserts b id monitorId hmem
    rw [hevents] at hcopy
    exact hcopy.replace hid hmon (.inr hview)

/-- The sum that the counter goes to is no less than 0. -/
theorem resize_tracked (h : Tracked view s) (hevents : s.db.events = l₁ ++ old :: l₂)
    (h₁ : ∀ e ∈ l₁, e.eventId ≠ old.eventId) (h₂ : ∀ e ∈ l₂, e.eventId ≠ old.eventId)
    (hid : new.eventId = old.eventId) (hmon : new.monitorId = old.monitorId)
    (hinserted : s.Inserted old.eventId) (hpresent : (s.db.summaries old.monitorId).isSome) :
    Tracked view { s with
      db := resizeBuckets max new old (new.space - old.space)
        { s.db with events := l₁ ++ new :: l₂ } } := by
  have htotal (m : ℕ) : ((resizeBuckets max new old (new.space - old.space)
      { s.db with events := l₁ ++ new :: l₂ }).summary m).total =
        if m = old.monitorId then (s.db.summary m).total.addSpace max (new.space - old.space)
        else (s.db.summary m).total := by
    have hsummary := @summary_updateSummary
      { s.db with
        events := l₁ ++ new :: l₂
        bucket := fun b ↦ setDiskSpace (s.db.bucket b) new.eventId new.diskSpace }
      old.monitorId m hpresent
    rw [resizeBuckets, hsummary]
    exact apply_ite Summary.total _ _ _
  have hcount := countOf_rows_replace hevents hmon
  have hspace := spaceOf_rows_replace hevents hmon
  refine ⟨nodup_replace (s := s) h.nodup hevents hid, fresh_replace (s := s) h.fresh hevents hid, ?_, ?_, ?_, ?_⟩
  · intro m
    refine Eq.trans ?_ ((h.events m).trans (hcount m).symm)
    rw [htotal]
    by_cases hm : m = old.monitorId
    · rw [if_pos hm]
      rfl
    · rw [if_neg hm]
      rfl
  · intro m
    refine Eq.trans ?_ (hspace m).symm
    have hm := h.diskSpace m
    have hnonneg := @spaceOf_nonneg ((l₁ ++ new :: l₂).map Event.toRow) m
    rw [hspace m] at hnonneg
    rw [htotal]
    by_cases heq : m = old.monitorId
    · rw [if_pos heq.symm] at hnonneg ⊢
      rw [if_pos heq]
      simp only [Counter.addSpace, coalesce, Option.getD_some] at hm ⊢
      omega
    · rw [if_neg (Ne.symm heq), add_zero, if_neg heq]
      exact hm
  · intro b r hr
    obtain ⟨r', hr', rfl⟩ := List.mem_map.mp hr
    have hcopy := h.bucket b r' hr'
    rw [hevents] at hcopy
    by_cases hr'' : r'.eventId = new.eventId
    · rw [if_pos hr'']
      refine ⟨new, by simp [resizeBuckets, Database.updateSummary], hr''.symm, ?_, rfl⟩
      obtain ⟨e, he, heid, hemon, -⟩ := hcopy
      have hold : e = old := by
        simp only [List.mem_append, List.mem_cons] at he
        have heid' : e.eventId = old.eventId := heid.trans (hr''.trans hid)
        rcases he with he | he | he
        · exact absurd heid' (h₁ e he)
        · exact he
        · exact absurd heid' (h₂ e he)
      subst hold
      exact hmon.trans hemon
    · rw [if_neg hr'']
      exact hcopy.replace hid hmon (.inl fun heq ↦ hr'' (heq.trans hid.symm))
  · intro b id monitorId hmem
    have hcopy := h.inserts b id monitorId hmem
    rw [hevents] at hcopy
    refine hcopy.replace hid hmon (.inl ?_)
    rintro rfl
    simpa [Statement.insertsFor] using hinserted _ hmem

theorem resizeArchived_tracked (h : Tracked view s) (diff : ℤ) :
    Tracked view { s with db := resizeArchived max new old diff s.db } := by
  have htotal (m : ℕ) : ((resizeArchived max new old diff s.db).summary m).total =
      (s.db.summary m).total := by
    by_cases hm : m = old.monitorId
    · subst hm
      cases hs : s.db.summaries old.monitorId <;>
        simp [resizeArchived, Database.summary, Database.updateSummary, hs]
    · simp [resizeArchived, Database.summary, Database.updateSummary, hm]
  refine ⟨h.nodup, h.fresh, ?_, ?_, h.bucket, h.inserts⟩
  · intro m
    rw [htotal]
    exact h.events m
  · intro m
    rw [htotal]
    exact h.diskSpace m

/-- A close leaves the archive flag alone. -/
theorem closeEvent_eq {db : Database} {diskSpace : ℕ}
    (hfind : db.events.find? (fun e ↦ e.eventId = old.eventId) = some old)
    (hnew : new = { old with diskSpace := some diskSpace })
    (hmap : db.events.map (fun e ↦ if e.eventId = old.eventId then new else e) =
      l₁ ++ new :: l₂) :
    closeEvent old.eventId diskSpace db = some
      (let diff := new.space - old.space
      if diff = 0 then { db with events := l₁ ++ new :: l₂ }
      else
        let resized := resizeBuckets max new old diff { db with events := l₁ ++ new :: l₂ }
        if old.archived then resizeArchived max new old diff resized else resized) := by
  have htrigger : closeEvent old.eventId diskSpace db =
      eventUpdateTrigger max new old { db with events := l₁ ++ new :: l₂ } := by
    rw [← hmap, hnew]
    simp only [closeEvent, updateEvent, hfind]
  have harchived : new.archived = old.archived := by rw [hnew]
  rw [htrigger, eventUpdateTrigger, if_neg (not_not_intro harchived), harchived]
  by_cases hdiff : new.space - old.space = 0
  · simp [hdiff]
  · cases old.archived <;> simp [hdiff]

theorem close_tracked (hview : ∀ x y, view x = view y → x.getD 0 = y.getD 0)
    (h : Tracked view s) {id diskSpace : ℕ} (htimely : Timely view s (.close id diskSpace))
    {db : Database} (hdb : closeEvent id diskSpace s.db = some db) :
    Tracked view { s with db } := by
  cases hfind : s.db.events.find? (fun e ↦ e.eventId = id) with
  | none =>
    obtain rfl : s.db = db := by simpa [closeEvent, hfind] using hdb
    exact h
  | some old =>
    obtain ⟨rfl, l₁, l₂, hevents, h₁, h₂⟩ := exists_split h.nodup hfind
    obtain ⟨new, hnew⟩ : ∃ new : Event, new = { old with diskSpace := some diskSpace } :=
      ⟨_, rfl⟩
    have hmap := map_split new h₁ h₂
    rw [← hevents] at hmap
    rw [closeEvent_eq hfind hnew hmap, Option.some.injEq] at hdb
    have hid : new.eventId = old.eventId := by rw [hnew]
    have hmon : new.monitorId = old.monitorId := by rw [hnew]
    have hspace : new.space = diskSpace := by rw [hnew]; rfl
    rcases htimely old (by simp [hevents]) rfl with hsame | ⟨hne, hinserted, hpresent⟩
    · have hspace' : new.space = old.space :=
        hspace.trans (congrArg Nat.cast (hview _ _ hsame))
      rw [if_pos (by omega)] at hdb
      rw [← hdb]
      exact replace_tracked h hevents hid hmon (by rw [hnew]; exact hsame) hspace'
    · rw [if_neg (by omega)] at hdb
      have hresized := resize_tracked h hevents h₁ h₂ hid hmon hinserted hpresent
      rw [← hdb]
      cases old.archived with
      | false => exact hresized
      | true => exact resizeArchived_tracked hresized _

end Close

section Delete

variable {α : Type} {view : Option ℕ → α} {s : Writers} {old : Event} {l₁ l₂ : List Event}

/-- The counter goes no lower than 0 where it counts an event. -/
theorem remove_tracked (h : Tracked view s) (hevents : s.db.events = l₁ ++ old :: l₂)
    (hinserted : s.Inserted old.eventId)
    (hcounted : 1 ≤ coalesce (s.db.summary old.monitorId).total.events) :
    Tracked view { s with
      db := { removeEvent max old s.db with events := l₁ ++ l₂ } } := by
  have hpresent : (s.db.summaries old.monitorId).isSome := by
    cases hs : s.db.summaries old.monitorId with
    | none => simp [Database.summary, hs, coalesce] at hcounted
    | some _ => rfl
  have htotal (m : ℕ) : ((removeEvent max old s.db).summary m).total =
      if m = old.monitorId then (s.db.summary m).total.remove max 1 old.space
      else (s.db.summary m).total := by
    have hsummary := @summary_updateSummary
      { s.db with
        bucket := fun b ↦ deleteRow (s.db.bucket b) old.eventId
        archived :=
          if old.archived then deleteRow s.db.archived old.eventId else s.db.archived }
      old.monitorId m hpresent
    rw [removeEvent, hsummary]
    exact apply_ite Summary.total _ _ _
  have hsub : (l₁ ++ l₂).Sublist s.db.events := by
    rw [hevents]
    exact (List.sublist_cons_self old l₂).append_left l₁
  have hcopy {r : Row} (hr : Copy view s.db.events r) (hne : r.eventId ≠ old.eventId) :
      Copy view (l₁ ++ l₂) r := by
    obtain ⟨e, he, heid, hemon, hespace⟩ := hr
    rw [hevents, List.mem_append, List.mem_cons] at he
    have hold : e ≠ old := by
      rintro rfl
      exact hne heid.symm
    exact ⟨e, List.mem_append.mpr (he.imp_right fun h ↦ h.resolve_left hold), heid, hemon,
      hespace⟩
  have hcount (m : ℕ) := @countOf_without (l₁.map Event.toRow) (l₂.map Event.toRow) old.toRow m
  have hspace (m : ℕ) := @spaceOf_without (l₁.map Event.toRow) (l₂.map Event.toRow) old.toRow m
  have hrows : s.db.rows = l₁.map Event.toRow ++ old.toRow :: l₂.map Event.toRow := by
    simp [Database.rows, hevents]
  refine ⟨h.nodup.sublist (hsub.map _), fun e he ↦ h.fresh e (hsub.subset he), ?_, ?_, ?_, ?_⟩
  · intro m
    have hm := h.events m
    change coalesce ((removeEvent max old s.db).summary m).total.events + (s.uncounted m : ℤ) =
      countOf ((l₁ ++ l₂).map Event.toRow) m
    rw [htotal, List.map_append, hcount, ← hrows, ← hm]
    by_cases heq : m = old.monitorId
    · rw [if_pos heq, if_pos heq.symm, heq]
      simp only [Counter.remove, coalesce, Option.getD_some] at hcounted ⊢
      omega
    · rw [if_neg heq, if_neg (Ne.symm heq), sub_zero]
  · intro m
    have hm := h.diskSpace m
    have hnonneg := @spaceOf_nonneg ((l₁ ++ l₂).map Event.toRow) m
    change coalesce ((removeEvent max old s.db).summary m).total.diskSpace =
      spaceOf ((l₁ ++ l₂).map Event.toRow) m
    rw [List.map_append, hspace, ← hrows, ← hm] at hnonneg ⊢
    rw [htotal]
    by_cases heq : m = old.monitorId
    · rw [if_pos heq.symm, heq] at hnonneg
      rw [if_pos heq, if_pos heq.symm, heq]
      simp only [Counter.remove, coalesce, Option.getD_some] at hnonneg ⊢
      omega
    · rw [if_neg heq, if_neg (Ne.symm heq), sub_zero]
  · intro b r hr
    obtain ⟨hmem, hne⟩ := List.mem_filter.mp hr
    exact hcopy (h.bucket b r hmem) (by simpa using hne)
  · intro b id monitorId hmem
    refine hcopy (h.inserts b id monitorId hmem) ?_
    rintro rfl
    simpa [Statement.insertsFor] using hinserted _ hmem

theorem delete_tracked (h : Tracked view s) {id : ℕ} (htimely : Timely view s (.delete id)) :
    Tracked view { s with db := deleteEvent max id s.db } := by
  cases hfind : s.db.events.find? (fun e ↦ e.eventId = id) with
  | none =>
    simp only [deleteEvent, hfind]
    exact h
  | some old =>
    obtain ⟨rfl, l₁, l₂, hevents, h₁, h₂⟩ := exists_split h.nodup hfind
    have hfilter := filter_split h₁ h₂
    have hrest : (removeEvent max old s.db).events = s.db.events := rfl
    rw [← hevents, ← hrest] at hfilter
    obtain ⟨hinserted, hcounted⟩ := htimely old (by simp [hevents]) rfl
    simp only [deleteEvent, hfind, eventDeleteTrigger_eq, hfilter]
    exact remove_tracked h hevents hinserted hcounted

end Delete

section Runs

open Lib

variable {α : Type} {view : Option ℕ → α} {s t : Writers} {op : Op} {ops : List Op}

theorem step_tracked (hview : ∀ x y, view x = view y → x.getD 0 = y.getD 0)
    (h : Tracked view s) (htimely : Timely view s op) (hstep : step s op = some t) :
    Tracked view t := by
  cases op with
  | create process monitorId =>
    obtain rfl := Option.some.inj hstep
    exact create_tracked h process monitorId
  | push monitorId =>
    obtain ⟨q, hq, rfl⟩ := Option.map_eq_some_iff.mp hstep
    refine push_tracked h rfl rfl (.map _ ?_)
    rw [← List.append_assoc]
    exact (List.perm_append_singleton q _).trans ((perm_eraseP hq).symm.append_right s.queue)
  | drain process =>
    obtain ⟨q, hq, rfl⟩ := Option.map_eq_some_iff.mp hstep
    have hperm := ((perm_eraseP hq).append_left s.unpushed).trans List.perm_middle
    exact drain_tracked h rfl rfl (hperm.map Queued.statement)
  | close id diskSpace =>
    obtain ⟨db, hdb, rfl⟩ := Option.map_eq_some_iff.mp hstep
    exact close_tracked hview h htimely hdb
  | delete id =>
    obtain rfl := Option.some.inj hstep
    exact delete_tracked h htimely

theorem run_tracked (hview : ∀ x y, view x = view y → x.getD 0 = y.getD 0)
    (hrun : Run step (Timely view) s ops t) (h : Tracked view s) : Tracked view t :=
  hrun.invariant (fun _ _ _ h hp hs ↦ step_tracked hview h hp hs) h

/-- As the disk space stands in the rows, and with null read as 0. -/
theorem timely_consistent (hs : s.unpushed = [] ∧ s.queue = [])
    (ht : t.unpushed = [] ∧ t.queue = []) :
    (Run step (Timely id) s ops t → Consistent id s → Consistent id t) ∧
      (Run step (Timely (·.getD 0)) s ops t → Consistent (·.getD 0) s →
        Consistent (·.getD 0) t) := by
  refine ⟨?_, ?_⟩
  · intro hrun h
    have htracked := h.tracked hs.1 hs.2
    exact (run_tracked (fun _ _ heq ↦ congrArg (·.getD 0) heq) hrun htracked).consistent ht.1 ht.2
  · intro hrun h
    have htracked := h.tracked hs.1 hs.2
    exact (run_tracked (fun _ _ heq ↦ heq) hrun htracked).consistent ht.1 ht.2

def empty : Writers := ⟨.empty, 1, [], []⟩

theorem empty_consistent (view : Option ℕ → α) : Consistent view empty := by
  refine ⟨List.nodup_nil, ?_, fun m ↦ ⟨rfl, rfl⟩, ?_⟩
  · intro e he
    cases he
  · intro b r hr
    cases hr

theorem timely_consistent_close : ∃ t, Consistent id t ∧ t.db.rows = [⟨1, 7, some 500⟩] := by
  obtain ⟨t, hrun, ht⟩ := Run.exists_of_any step (Timely id) empty
    ([.create 3 7, .push 7, .push 7, .drain 3, .push 7, .push 7, .push 7, .drain 3, .drain 3,
      .drain 3, .drain 3, .close 1 500, .create 3 7] ++ List.replicate 5 (.push 7) ++
      List.replicate 5 (.drain 3) ++ [.delete 2])
    (fun t ↦ t.unpushed = [] ∧ t.queue = [] ∧ t.db.rows = [⟨1, 7, some 500⟩]) (by decide +kernel)
  simp only [decide_eq_true_eq] at ht
  exact ⟨t, (timely_consistent ⟨rfl, rfl⟩ ⟨ht.1, ht.2.1⟩).1 hrun (empty_consistent id), ht.2.2⟩

/-- The event is closed before its bucket rows and the row of its monitor are there. -/
theorem close_inconsistent : ¬∀ ops t, Run step (fun _ _ ↦ True) empty ops t →
    t.unpushed = [] → t.queue = [] → Consistent (·.getD 0) t := by
  intro h
  obtain ⟨t, hrun, ht⟩ := Run.exists_of_any step (fun _ _ ↦ True) empty
    (.create 3 7 :: List.replicate 5 (.push 7) ++ .close 1 500 :: List.replicate 5 (.drain 3))
    (fun t ↦ t.unpushed = [] ∧ t.queue = [] ∧
      coalesce (t.db.summary 7).total.diskSpace ≠ spaceOf t.db.rows 7) (by decide +kernel)
  simp only [decide_eq_true_eq] at ht
  exact ht.2.2 ((h _ t hrun ht.1 ht.2.1).total 7).diskSpace

end Runs

end Writers

end ZoneMinder.EventSummaries
