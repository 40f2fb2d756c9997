import ZoneMinder.Recorder.Recorded

namespace ZoneMinder.Recorder

open Lib

def Statement.frames : Statement → List Frame
  | .insertFrames frames => frames
  | _ => []

/-- The rows of Frames that some statements insert. -/
def framesRows (statements : List Statement) : List Frame := statements.flatMap Statement.frames

@[simp] theorem framesRows_nil : framesRows [] = [] := rfl

@[simp] theorem framesRows_append (a b : List Statement) :
    framesRows (a ++ b) = framesRows a ++ framesRows b := List.flatMap_append

@[simp] theorem framesRows_cons (a : Statement) (b : List Statement) :
    framesRows (a :: b) = a.frames ++ framesRows b := List.flatMap_cons

theorem framesRows_stats {stats : List Statement} (h : ∀ s ∈ stats, s.IsStats) :
    framesRows stats = [] := by
  rw [framesRows, List.flatMap_eq_nil_iff]
  intro s hs
  have hstats := h s hs
  cases s with
  | insertFrames => exact hstats.elim
  | insertStats => rfl
  | updateEvent => rfl

variable {c : Settings} {ts : List Taken} {t : Taken} {e e' : Event} {s s' : Recording}
  {ops : List Op} {op : Op} {packet : ZMPacket} {reading : Reading} {l : List ℕ}

@[simp] theorem taken_concat (ops : List Op) (op : Op) :
    taken (ops ++ [op]) = taken ops ++ op.taken?.toList := by
  rw [taken, List.filterMap_append, taken]
  cases h : op.taken? <;> simp [h]

/-- The rows that were written, the ones in the queue and the ones that wait are those of the
frames. -/
structure Kept (c : Settings) (ts : List Taken) (s : Recording) : Prop where
  follows : Follows ts s.event
  rows : framesRows s.executed ++ framesRows s.event.dbQueue ++ s.event.frameData = rows c ts
  room : s.event.frameData.length < maxDbFrames
  stopped : s.stopped = true → s.event.frameData = []

theorem kept_init : Kept c [] (.init c) :=
  ⟨⟨rfl, rfl, rfl, rfl, rfl, rfl, rfl⟩, rfl, Nat.zero_lt_succ _, fun _ ↦ rfl⟩

theorem Follows.of_same {e₁ : Event} (h : Follows ts e) (hframes : e₁.frames = e.frames)
    (halarms : e₁.alarmFrames = e.alarmFrames) (htot : e₁.totScore = e.totScore)
    (hmax : e₁.maxScore = e.maxScore) (hid : e₁.maxScoreFrameId = e.maxScoreFrameId)
    (hsnapshot : e₁.snapshotFileWritten = e.snapshotFileWritten)
    (halarm : e₁.alarmFrameWritten = e.alarmFrameWritten) : Follows ts e₁ :=
  ⟨hframes ▸ h.frames, halarms ▸ h.alarmFrames, htot ▸ h.totScore, hmax ▸ h.maxScore,
    hid ▸ h.maxScoreFrameId, hsnapshot ▸ h.snapshot, halarm ▸ h.alarm⟩

/-- A packet that does not count leaves the rows of an event as they are. -/
theorem addPacket_none (h : Follows ts e) (hop : (Op.addPacket packet reading).taken? = none) :
    Follows ts (e.addPacket c reading packet) ∧
      (e.addPacket c reading packet).frameData = e.frameData ∧
      (e.addPacket c reading packet).dbQueue = e.dbQueue ∧
      (e.addPacket c reading packet).lastDbFrame = e.lastDbFrame ∧
      (e.addPacket c reading packet).images = e.images := by
  unfold Event.addPacket
  dsimp only
  split
  · next hframe =>
    have hzero : packet.timestamp = 0 := by
      unfold Op.taken? at hop
      simpa [hframe] using hop
    unfold Event.addFrame
    rw [if_pos hzero]
    exact ⟨h.of_same rfl rfl rfl rfl rfl rfl rfl, rfl, rfl, rfl, rfl⟩
  · exact ⟨h.of_same rfl rfl rfl rfl rfl rfl rfl, rfl, rfl, rfl, rfl⟩

/-- A packet that counts is a frame of the event. -/
theorem addPacket_some (h : Follows ts e) (hop : (Op.addPacket packet reading).taken? = some t) :
    Follows (ts ++ [t]) (e.addPacket c reading packet) ∧
      Adds c ts t e (e.addPacket c reading packet) ∧
      (e.addPacket c reading packet).images = e.images ++ imagesOf c ts t := by
  simp only [Op.taken?, Option.ite_none_right_eq_some, Option.some.injEq, Bool.and_eq_true,
    decide_eq_true_eq] at hop
  obtain ⟨⟨hframe, htime⟩, rfl⟩ := hop
  unfold Event.addPacket
  dsimp only
  rw [if_pos hframe]
  generalize hkeyed : ({ e with haveVideoKeyframe := _, recorded := _ } : Event) = e₁
  have hbefore : Follows ts e₁ ∧ e₁.frameData = e.frameData ∧ e₁.dbQueue = e.dbQueue ∧
      e₁.lastDbFrame = e.lastDbFrame ∧ e₁.images = e.images := by
    rw [← hkeyed]
    exact ⟨h.of_same rfl rfl rfl rfl rfl rfl rfl, rfl, rfl, rfl, rfl⟩
  obtain ⟨hfollows, hdata, hqueue, hlast, himages⟩ := hbefore
  obtain ⟨hnext, hadds, hpictures⟩ := addFrame_step (c := c) (t := ⟨packet, reading⟩) hfollows htime
  refine ⟨hnext.of_same rfl rfl rfl rfl rfl rfl rfl, ?_, himages ▸ hpictures⟩
  cases hadds.of_eq hdata hqueue hlast with
  | skipped hrow hd hq hl => exact .skipped hrow hd hq hl
  | waits hrow hs ha hd hroom hq hl => exact .waits hrow hs ha hd hroom hq hl
  | flushed stats hrow hstats hd hl hq => exact .flushed stats hrow hstats hd hl hq

theorem stop_cases (c : Settings) (e : Event) :
    (e.frameData = [] ∧ e.stop c = e) ∨
    ∃ stats : List Statement, (∀ s ∈ stats, s.IsStats) ∧ e.stop c = { e with
      frameData := []
      dbQueue := e.dbQueue ++ .insertFrames e.frameData :: stats } := by
  unfold Event.stop
  cases hdata : e.frameData with
  | nil => exact .inl ⟨rfl, rfl⟩
  | cons frame frames =>
    obtain ⟨stats, hstats, heq⟩ := writeDbFrames_eq c e
    rw [hdata] at heq
    exact .inr ⟨stats, hstats, heq⟩

/-- The steps of a recording. -/
inductive Moves (c : Settings) (s : Recording) : Op → Recording → Prop
  | addPacket (packet : ZMPacket) (reading : Reading) : s.stopped = false →
      Moves c s (.addPacket packet reading) { s with event := s.event.addPacket c reading packet }
  | execute {statement : Statement} {rest : List Statement} :
      s.event.dbQueue = statement :: rest →
      Moves c s .execute { s with
        event := { s.event with dbQueue := rest }
        executed := s.executed ++ [statement] }
  | stop : s.stopped = false →
      Moves c s .stop { s with event := s.event.stop c, stopped := true }
  | finish (now : ℤ) : s.stopped = true → s.finished = false →
      Moves c s (.finish now) { s with
        executed := s.executed ++ [s.event.closing c now]
        finished := true }

theorem step_moves (hs : step c s op = some s') : Moves c s op s' := by
  cases op with
  | addPacket packet reading =>
    obtain ⟨hstopped, hnext⟩ := Option.ite_none_left_eq_some.mp hs
    rw [← Option.some.inj hnext]
    exact .addPacket packet reading (Bool.eq_false_iff.mpr hstopped)
  | execute =>
    cases hqueue : s.event.dbQueue with
    | nil => simp [step, hqueue] at hs
    | cons statement rest =>
      simp only [step, hqueue] at hs
      rw [← Option.some.inj hs]
      exact .execute hqueue
  | stop =>
    obtain ⟨hstopped, hnext⟩ := Option.ite_none_left_eq_some.mp hs
    rw [← Option.some.inj hnext]
    exact .stop (Bool.eq_false_iff.mpr hstopped)
  | finish now =>
    obtain ⟨hready, hnext⟩ := Option.ite_none_right_eq_some.mp hs
    rw [← Option.some.inj hnext]
    rw [Bool.and_eq_true, Bool.not_eq_true'] at hready
    exact .finish now hready.1 hready.2

theorem kept_step (h : Kept c (taken ops) s) (hs : step c s op = some s') :
    Kept c (taken (ops ++ [op])) s' := by
  rw [taken_concat]
  have hrows := h.rows
  cases step_moves hs with
  | addPacket packet reading hstopped =>
    have hstopped' : ¬s.stopped = true := Bool.eq_false_iff.mp hstopped
    cases hop : (Op.addPacket packet reading).taken? with
    | none =>
      rw [Option.toList_none, List.append_nil]
      obtain ⟨hfollows, hdata, hqueue, -, -⟩ := addPacket_none (c := c) h.follows hop
      refine ⟨hfollows, ?_, hdata ▸ h.room, fun hstop ↦ absurd hstop hstopped'⟩
      rw [← hrows, hdata, hqueue]
    | some t =>
      rw [Option.toList_some]
      obtain ⟨hfollows, hadds, -⟩ := addPacket_some (c := c) h.follows hop
      refine ⟨hfollows, ?_, ?_, fun hstop ↦ absurd hstop hstopped'⟩
      · rw [rows_concat, ← hrows]
        cases hadds with
        | skipped hrow hd hq => simp only [hd, hq, if_neg hrow, List.append_nil]
        | waits hrow _ _ hd _ hq => simp only [hd, hq, if_pos hrow, List.append_assoc]
        | flushed stats hrow hstats hd _ hq =>
          simp [hd, hq, if_pos hrow, framesRows_stats hstats, Statement.frames]
      · cases hadds with
        | skipped _ hd => exact hd ▸ h.room
        | waits _ _ _ _ hroom => exact hroom
        | flushed _ _ _ hd => exact hd ▸ Nat.zero_lt_succ _
  | @execute statement rest hqueue =>
    change Kept c (taken ops ++ []) _
    rw [List.append_nil]
    refine ⟨h.follows.of_same rfl rfl rfl rfl rfl rfl rfl, ?_, h.room, h.stopped⟩
    rw [← hrows, hqueue]
    simp
  | stop =>
    change Kept c (taken ops ++ []) _
    rw [List.append_nil]
    rcases stop_cases c s.event with ⟨hdata, heq⟩ | ⟨stats, hstats, heq⟩
    · rw [heq]
      exact ⟨h.follows, hrows, h.room, fun _ ↦ hdata⟩
    · rw [heq]
      refine ⟨h.follows.of_same rfl rfl rfl rfl rfl rfl rfl, ?_, Nat.zero_lt_succ _, fun _ ↦ rfl⟩
      rw [← hrows]
      simp [framesRows_stats hstats, Statement.frames]
  | finish now =>
    change Kept c (taken ops ++ []) _
    rw [List.append_nil]
    refine ⟨h.follows, ?_, h.room, h.stopped⟩
    rw [← hrows]
    simp [Event.closing, Statement.frames]

theorem run_kept {P : Recording → Op → Prop} (h : Run (step c) P (.init c) ops s) :
    Kept c (taken ops) s :=
  h.invariant_along (I := fun ops s ↦ Kept c (taken ops) s) (fun _ _ _ _ hk _ hs ↦ kept_step hk hs)
    kept_init

theorem rowsFrom_frameId (c : Settings) (before later : List Taken) :
    ∀ row ∈ rowsFrom c before later,
      before.length < row.frameId ∧ row.frameId ≤ before.length + later.length := by
  induction later generalizing before with
  | nil => exact List.forall_mem_nil _
  | cons t later ih =>
    intro row hrow
    rw [rowsFrom, List.mem_append] at hrow
    rw [List.length_cons]
    rcases hrow with hrow | hrow
    · rw [List.mem_ite_nil_right, List.mem_singleton] at hrow
      rw [hrow.2]
      constructor
      · exact Nat.lt_succ_self _
      · simp only [rowOf]
        omega
    · have hlater := ih _ row hrow
      rw [List.length_append, List.length_singleton] at hlater
      omega

/-- The rows are in the order of their frames. -/
theorem rowsFrom_increasing (c : Settings) (before later : List Taken) :
    (rowsFrom c before later).Pairwise fun r r' ↦ r.frameId < r'.frameId := by
  induction later generalizing before with
  | nil => exact .nil
  | cons t later ih =>
    rw [rowsFrom]
    split
    · refine List.pairwise_cons.mpr ⟨fun row hrow ↦ ?_, ih _⟩
      have hlater := (rowsFrom_frameId c _ _ row hrow).1
      rw [List.length_append] at hlater
      exact hlater
    · exact ih _

/-- The first frame has a row. -/
theorem rows_head (c : Settings) (ts : List Taken) :
    (rows c ts).head?.map Frame.frameId = ts.head?.map fun _ ↦ 1 := by
  cases ts with
  | nil => rfl
  | cons t ts =>
    have hfirst : HasRow c [] t := .inr (.inl (List.forall_mem_nil _))
    rw [rows, rowsFrom, if_pos hfirst]
    rfl

/-- However the packets of an event, the queue of the database and the end of the event come
together, every row that a frame has is written, queued or waiting, once and in order; fewer than
a hundred wait, and none when the event has ended. -/
theorem frames_recorded (h : Run (step c) (fun _ _ ↦ True) (.init c) ops s) :
    framesRows s.executed ++ framesRows s.event.dbQueue ++ s.event.frameData =
        rows c (taken ops) ∧
      (rows c (taken ops)).Pairwise (fun r r' ↦ r.frameId < r'.frameId) ∧
      (rows c (taken ops)).head?.map Frame.frameId = (taken ops).head?.map (fun _ ↦ 1) ∧
      s.event.frameData.length < 100 ∧
      (s.stopped = true → s.event.dbQueue = [] → framesRows s.executed = rows c (taken ops)) := by
  obtain ⟨-, hrows, hroom, hstopped⟩ := run_kept h
  refine ⟨hrows, rowsFrom_increasing c _ _, rows_head c _, hroom, fun hstop hqueue ↦ ?_⟩
  rw [hstopped hstop, hqueue] at hrows
  simpa using hrows

/-- A quiet frame, one that is not written and an alarm frame. -/
def alarmOps : List Op :=
  [.addPacket { timestamp := 1000000000 } {}, .addPacket { timestamp := 2000000000 } {},
    .addPacket { timestamp := 3000000000, score := 7 } {}]

def alarmSettings : Settings := { startTime := 1000000000 }

theorem frames_recorded_stopped : ∃ s : Recording,
    s.stopped = true ∧ framesRows s.executed = rows alarmSettings (taken alarmOps) ∧
      (framesRows s.executed).map Frame.frameId = [1, 3] := by
  obtain ⟨s, hrun, hs⟩ := Run.exists_of_any (step alarmSettings) (fun _ _ ↦ True)
    (.init alarmSettings) (alarmOps ++ [.stop, .execute, .execute, .execute, .execute])
    (fun s ↦ s.stopped && s.event.dbQueue.isEmpty &&
      (framesRows s.executed).map Frame.frameId = [1, 3]) (by decide)
  simp only [Bool.and_eq_true, List.isEmpty_iff, decide_eq_true_eq] at hs
  exact ⟨s, hs.1.1, (frames_recorded hrun).2.2.2.2 hs.1.1 hs.1.2, hs.2⟩

def Statement.update? : Statement → Option (ℤ × Totals)
  | .updateEvent length totals => some (length, totals)
  | _ => none

/-- What the row of an event was last set to. -/
def eventsRow (statements : List Statement) : Option (ℤ × Totals) :=
  (statements.filterMap Statement.update?).getLast?

theorem eventsRow_append (a b : List Statement) :
    eventsRow (a ++ b) = (eventsRow b).or (eventsRow a) := by
  rw [eventsRow, List.filterMap_append, List.getLast?_append]
  rfl

theorem eventsRow_stats {stats : List Statement} (h : ∀ s ∈ stats, s.IsStats) :
    eventsRow stats = none := by
  have hnone : stats.filterMap Statement.update? = [] := by
    rw [List.filterMap_eq_nil_iff]
    intro s hs
    have hstats := h s hs
    cases s with
    | insertFrames => exact hstats.elim
    | insertStats => rfl
    | updateEvent => exact hstats.elim
  rw [eventsRow, hnone]
  rfl

/-- An update of the event comes behind the rows of the frames it covers, and the last of these
is the frame it was made for. -/
def Timely (c : Settings) (ts : List Taken) (before : List Statement) : Statement → Prop
  | .updateEvent length totals => ∃ row, (framesRows before).getLast? = some row ∧
      length = row.delta ∧ row.frameId ≤ ts.length ∧ totals = totalsOf (ts.take row.frameId) ∧
      framesRows before = rows c (ts.take row.frameId)
  | _ => True

theorem Timely.later {before : List Statement} {statement : Statement}
    (h : Timely c ts before statement) : Timely c (ts ++ [t]) before statement := by
  cases statement with
  | insertFrames => trivial
  | insertStats => trivial
  | updateEvent length totals =>
    obtain ⟨row, hlast, hlength, hle, htotals, hrows⟩ := h
    have htake : (ts ++ [t]).take row.frameId = ts.take row.frameId :=
      List.take_append_of_le_length hle
    rw [← htake] at htotals hrows
    refine ⟨row, hlast, hlength, ?_, htotals, hrows⟩
    rw [List.length_append]
    omega

theorem along_stats {l stats : List Statement} (h : Along (Timely c ts) l)
    (hstats : ∀ s ∈ stats, s.IsStats) : Along (Timely c ts) (l ++ stats) := by
  induction stats generalizing l with
  | nil => rwa [List.append_nil]
  | cons s stats ih =>
    obtain ⟨hs, hstats⟩ := List.forall_mem_cons.mp hstats
    have hone : Timely c ts l s := by
      cases s with
      | insertFrames => trivial
      | insertStats => trivial
      | updateEvent => exact hs.elim
    rw [List.append_cons]
    exact ih (along_concat.mpr ⟨h, hone⟩) hstats

/-- The updates of an event that has not been closed. -/
structure Updated (c : Settings) (ts : List Taken) (s : Recording) : Prop where
  along : Along (Timely c ts) (s.executed ++ s.event.dbQueue)
  last : (eventsRow (s.executed ++ s.event.dbQueue)).elim 0 (fun u ↦ u.2.frames) =
    s.event.lastDbFrame

theorem updated_init : Updated c [] (.init c) := ⟨along_nil, rfl⟩

theorem updated_flushed {stats : List Statement} {e' : Event} (hk : Kept c ts s)
    (h : Updated c ts s) (hrow : HasRow c ts t) (hstats : ∀ s ∈ stats, s.IsStats)
    (hlast : e'.lastDbFrame = ts.length + 1)
    (hq : e'.dbQueue = s.event.dbQueue ++ .insertFrames (s.event.frameData ++ [rowOf c ts t]) ::
      (stats ++ [.updateEvent (rowOf c ts t).delta (totalsOf (ts ++ [t]))])) :
    Updated c (ts ++ [t]) { s with event := e' } := by
  have hrows : framesRows (s.executed ++ s.event.dbQueue ++
      [.insertFrames (s.event.frameData ++ [rowOf c ts t])] ++ stats) = rows c (ts ++ [t]) := by
    rw [rows_concat, if_pos hrow, ← hk.rows]
    simp [framesRows_stats hstats, Statement.frames]
  have heq : s.executed ++ e'.dbQueue = s.executed ++ s.event.dbQueue ++
      [.insertFrames (s.event.frameData ++ [rowOf c ts t])] ++ stats ++
      [.updateEvent (rowOf c ts t).delta (totalsOf (ts ++ [t]))] := by
    rw [hq]
    simp
  have htake : (ts ++ [t]).take (rowOf c ts t).frameId = ts ++ [t] :=
    List.take_of_length_le (by rw [List.length_append]; exact le_rfl)
  constructor
  · rw [heq]
    refine along_concat.mpr ⟨along_stats (along_concat.mpr ⟨?_, trivial⟩) hstats, rowOf c ts t, ?_⟩
    · exact fun before a hbefore ↦ (h.along before a hbefore).later
    · rw [hrows, htake]
      refine ⟨?_, rfl, ?_, rfl, rfl⟩
      · rw [rows_concat, if_pos hrow, List.getLast?_concat]
      · rw [List.length_append]
        exact le_rfl
  · rw [heq, eventsRow_append, hlast]
    exact List.length_append

theorem updated_step (hk : Kept c (taken ops) s)
    (h : s.finished = false → Updated c (taken ops) s) (hs : step c s op = some s')
    (hopen : s'.finished = false) : Updated c (taken (ops ++ [op])) s' := by
  rw [taken_concat]
  cases step_moves hs with
  | addPacket packet reading hstopped =>
    have hupdated := h hopen
    cases hop : (Op.addPacket packet reading).taken? with
    | none =>
      rw [Option.toList_none, List.append_nil]
      obtain ⟨-, -, hqueue, hlast, -⟩ := addPacket_none (c := c) hk.follows hop
      refine ⟨?_, ?_⟩
      · rw [hqueue]
        exact hupdated.along
      · rw [hqueue, hlast]
        exact hupdated.last
    | some t =>
      rw [Option.toList_some]
      obtain ⟨-, hadds, -⟩ := addPacket_some (c := c) hk.follows hop
      have hlater : Along (Timely c (taken ops ++ [t])) (s.executed ++ s.event.dbQueue) :=
        fun before a hbefore ↦ (hupdated.along before a hbefore).later
      cases hadds with
      | skipped _ _ hq hl => exact ⟨hq ▸ hlater, by rw [hq, hl]; exact hupdated.last⟩
      | waits _ _ _ _ _ hq hl => exact ⟨hq ▸ hlater, by rw [hq, hl]; exact hupdated.last⟩
      | flushed stats hrow hstats _ hl hq => exact updated_flushed hk hupdated hrow hstats hl hq
  | @execute statement rest hqueue =>
    have hupdated := h hopen
    change Updated c (taken ops ++ []) _
    rw [List.append_nil]
    have heq : s.executed ++ [statement] ++ rest = s.executed ++ s.event.dbQueue := by
      rw [hqueue, List.append_assoc]
      rfl
    exact ⟨heq ▸ hupdated.along, heq ▸ hupdated.last⟩
  | stop =>
    have hupdated := h hopen
    change Updated c (taken ops ++ []) _
    rw [List.append_nil]
    rcases stop_cases c s.event with ⟨-, heq⟩ | ⟨stats, hstats, heq⟩
    · rw [heq]
      exact ⟨hupdated.along, hupdated.last⟩
    · rw [heq]
      have hpushed : s.executed ++ (s.event.dbQueue ++ .insertFrames s.event.frameData :: stats) =
          s.executed ++ s.event.dbQueue ++ [.insertFrames s.event.frameData] ++ stats := by
        simp
      constructor
      · rw [hpushed]
        exact along_stats (along_concat.mpr ⟨hupdated.along, trivial⟩) hstats
      · rw [hpushed, eventsRow_append, eventsRow_stats hstats, eventsRow_append]
        exact hupdated.last
  | finish => contradiction

theorem run_updated {P : Recording → Op → Prop} (h : Run (step c) P (.init c) ops s)
    (hopen : s.finished = false) : Updated c (taken ops) s :=
  (h.invariant_along
    (I := fun ops s ↦ Kept c (taken ops) s ∧ (s.finished = false → Updated c (taken ops) s))
    (fun _ _ _ _ hk _ hs ↦ ⟨kept_step hk.1 hs, updated_step hk.1 hk.2 hs⟩)
    ⟨kept_init, fun _ ↦ updated_init⟩).2 hopen

theorem Updated.exists_row {length : ℤ} {totals : Totals} (h : Updated c ts s)
    (hrow : eventsRow (s.executed ++ s.event.dbQueue) = some (length, totals)) :
    totals = totalsOf (ts.take s.event.lastDbFrame) ∧ s.event.lastDbFrame ≤ ts.length := by
  obtain ⟨before, hbefore⟩ := List.getLast?_eq_some_iff.mp hrow
  have hmem : (length, totals) ∈ (s.executed ++ s.event.dbQueue).filterMap Statement.update? := by
    rw [hbefore]
    exact List.mem_append_right _ List.mem_cons_self
  obtain ⟨statement, hstatement, hupdate⟩ := List.mem_filterMap.mp hmem
  obtain ⟨early, late, hsplit⟩ := List.append_of_mem hstatement
  have htimely := h.along early statement ⟨late, by rw [hsplit, List.append_assoc]; rfl⟩
  cases statement with
  | insertFrames => contradiction
  | insertStats => contradiction
  | updateEvent l u =>
    obtain ⟨rfl, rfl⟩ := Prod.mk.inj (Option.some.inj hupdate)
    obtain ⟨row, -, -, hle, htotals, -⟩ := htimely
    have hlast := h.last
    rw [hrow] at hlast
    have hframes : row.frameId = s.event.lastDbFrame := by
      rw [← hlast, Option.elim_some, htotals]
      exact (List.length_take_of_le hle).symm
    rw [← hframes]
    exact ⟨htotals, hle⟩

/-- Executing what is in the queue keeps the order. -/
theorem executes_pushed {t u : Recording}
    (h : Run (step c) (fun _ op ↦ op = .execute) t ops u) :
    u.executed ++ u.event.dbQueue = t.executed ++ t.event.dbQueue := by
  refine h.invariant (I := fun s ↦ s.executed ++ s.event.dbQueue = t.executed ++ t.event.dbQueue)
    (fun s op s' hI hop hs ↦ ?_) rfl
  subst hop
  cases step_moves hs with
  | @execute statement rest hqueue =>
    rw [← hI, hqueue]
    simp

/-- The update that closes an event does not wait for the queue. Once the queue is worked off, the
row of the event holds the totals of all its frames exactly if no other update of it was still in
the queue, or the last of these was made for the last frame. -/
theorem closing_stands_iff {now : ℤ} {t u : Recording} {rest : List Op}
    (h : Run (step c) (fun _ _ ↦ True) (.init c) ops s)
    (hfinish : step c s (.finish now) = some t)
    (hrest : Run (step c) (fun _ op ↦ op = .execute) t rest u) (hdone : u.event.dbQueue = []) :
    (eventsRow u.executed).map Prod.snd = some (totalsOf (taken ops)) ↔
      eventsRow s.event.dbQueue = none ∨ s.event.lastDbFrame = s.event.frames := by
  have hkept := run_kept h
  have hpushed := executes_pushed hrest
  rw [hdone, List.append_nil] at hpushed
  cases step_moves hfinish with
  | finish _ hstopped hopen =>
    have hupdated := run_updated h hopen
    rw [hpushed]
    dsimp only
    rw [eventsRow_append, eventsRow_append]
    cases hqueue : eventsRow s.event.dbQueue with
    | none =>
      refine iff_of_true ?_ (.inl rfl)
      exact congrArg some hkept.follows.forDb
    | some update =>
      obtain ⟨length, totals⟩ := update
      have hrow : eventsRow (s.executed ++ s.event.dbQueue) = some (length, totals) := by
        rw [eventsRow_append, hqueue]
        rfl
      obtain ⟨htotals, hle⟩ := hupdated.exists_row hrow
      have hframes := hkept.follows.frames
      change some totals = some (totalsOf (taken ops)) ↔ _
      constructor
      · intro heq
        right
        have hlength := congrArg Totals.frames (htotals.symm.trans (Option.some.inj heq))
        change (List.take _ _).length = _ at hlength
        rw [List.length_take_of_le hle] at hlength
        rw [hlength, hframes]
        rfl
      · rintro (hnone | hlast)
        · contradiction
        · rw [htotals, hlast, hframes, List.take_length]

theorem exists_drained (c : Settings) (t : Recording) :
    ∃ rest u, Run (step c) (fun _ op ↦ op = .execute) t rest u ∧ u.event.dbQueue = [] := by
  obtain ⟨n, hn⟩ : ∃ n, t.event.dbQueue.length = n := ⟨_, rfl⟩
  induction n generalizing t with
  | zero => exact ⟨[], t, .nil t, List.length_eq_zero_iff.mp hn⟩
  | succ n ih =>
    obtain ⟨statement, rest, hqueue⟩ := List.exists_cons_of_length_eq_add_one hn
    rw [hqueue, List.length_cons] at hn
    obtain ⟨ops, u, hrun, hdone⟩ := ih
      { t with
        event := { t.event with dbQueue := rest }
        executed := t.executed ++ [statement] } (Nat.succ.inj hn)
    exact ⟨.execute :: ops, u, .cons rfl (by simp only [step, hqueue]) hrun, hdone⟩

/-- The event ends with two frames, and its row says one. -/
theorem closing_stands_iff_overtaken : ∃ (s t u : Recording) (rest : List Op),
    step alarmSettings s (.finish 0) = some t ∧
      Run (step alarmSettings) (fun _ op ↦ op = .execute) t rest u ∧ u.event.dbQueue = [] ∧
      (eventsRow u.executed).map Prod.snd ≠
        some (totalsOf (taken (alarmOps.take 2 ++ [.stop]))) := by
  obtain ⟨s, hrun, hs⟩ := Run.exists_of_any (step alarmSettings) (fun _ _ ↦ True)
    (.init alarmSettings) (alarmOps.take 2 ++ [.stop])
    (fun s ↦ s.stopped && !s.finished && (eventsRow s.event.dbQueue).isSome &&
      s.event.lastDbFrame ≠ s.event.frames) (by decide)
  simp only [Bool.and_eq_true, decide_eq_true_eq] at hs
  obtain ⟨⟨hready, hqueue⟩, hlast⟩ := hs
  have hfinish : step alarmSettings s (.finish 0) = some { s with
      executed := s.executed ++ [s.event.closing alarmSettings 0]
      finished := true } := if_pos (by simpa using hready)
  obtain ⟨rest, u, hrest, hdone⟩ := exists_drained alarmSettings _
  refine ⟨s, _, u, rest, hfinish, hrest, hdone, ?_⟩
  apply (closing_stands_iff hrun hfinish hrest hdone).not.mpr
  rintro (hnone | hframes)
  · rw [hnone] at hqueue
    contradiction
  · exact hlast hframes

theorem pictures_concat {file : ImageFile} {e' : Event}
    (h : e'.images = e.images ++ imagesOf c ts t) :
    e'.pictures file = e.pictures file ++ if Writes c ts t file then [ts.length + 1] else [] := by
  rw [Event.pictures, h, List.filterMap_append, imagesOf_pictures]
  rfl

/-- The pictures of an event, and the rows of the frames that are its thumbnails. -/
structure Pictured (c : Settings) (ts : List Taken) (s : Recording) : Prop where
  rows : ∀ n, n ∈ s.event.pictures .snapshot ∨ n ∈ s.event.pictures .alarm →
    ∃ row ∈ framesRows s.executed ++ framesRows s.event.dbQueue, row.frameId = n
  snapshot : (∀ t ∈ ts, t.packet.image = true) →
    (s.event.pictures .snapshot).getLast? = if ts = [] then none else some (loudestFrame ts)
  alarm : (∀ t ∈ ts, t.packet.image = true) →
    s.event.pictures .alarm = ((ts.findIdx? Taken.alarmed).map (· + 1)).toList

theorem pictured_init : Pictured c [] (.init c) :=
  ⟨fun _ h ↦ h.elim (absurd · List.not_mem_nil) (absurd · List.not_mem_nil), fun _ ↦ rfl,
    fun _ ↦ rfl⟩

/-- A frame whose picture becomes a thumbnail has a row, if the first frame has a picture. -/
theorem hasRow_of_writes (hfirst : ∀ u, (ts ++ [t]).head? = some u → u.packet.image = true)
    (h : Writes c ts t .snapshot ∨ Writes c ts t .alarm) : HasRow c ts t := by
  rcases h with ⟨-, hlouder | hnone⟩ | ⟨-, halarm, -⟩
  · exact .inr (.inl hlouder)
  · cases ts with
    | nil => exact .inr (.inl (List.forall_mem_nil _))
    | cons u ts =>
      have hsome := hfirst u rfl
      rw [hnone u List.mem_cons_self] at hsome
      contradiction
  · refine .inl fun hnormal ↦ ?_
    have htype : frameType c t.reading.state (ts.length + 1) t.packet.score = .alarm :=
      frameType_alarm.mpr (of_decide_eq_true halarm)
    rw [hnormal] at htype
    contradiction

theorem snapshot_concat (himage : ∀ u ∈ ts ++ [t], u.packet.image = true)
    (h : l.getLast? = if ts = [] then none else some (loudestFrame ts)) :
    (l ++ if Writes c ts t .snapshot then [ts.length + 1] else []).getLast? =
      some (loudestFrame (ts ++ [t])) := by
  have ht : t.packet.image = true := himage t (List.mem_append_right _ List.mem_cons_self)
  by_cases hlouder : ∀ u ∈ ts, u.score < t.score
  · rw [if_pos ⟨ht, .inl hlouder⟩, List.getLast?_concat, loudestFrame_concat_louder hlouder]
  · have hnot : ¬Writes c ts t .snapshot := by
      rintro ⟨-, hloud | hnone⟩
      · exact hlouder hloud
      · apply hlouder
        intro u hu
        have hsome := himage u (List.mem_append_left _ hu)
        rw [hnone u hu] at hsome
        contradiction
    push Not at hlouder
    obtain ⟨u, hu, hscore⟩ := hlouder
    rw [if_neg hnot, List.append_nil, h, if_neg (List.ne_nil_of_mem hu),
      loudestFrame_concat_quieter hu hscore]

theorem alarm_concat (himage : ∀ u ∈ ts ++ [t], u.packet.image = true)
    (h : l = ((ts.findIdx? Taken.alarmed).map (· + 1)).toList) :
    (l ++ if Writes c ts t .alarm then [ts.length + 1] else []) =
      (((ts ++ [t]).findIdx? Taken.alarmed).map (· + 1)).toList := by
  have ht : t.packet.image = true := himage t (List.mem_append_right _ List.mem_cons_self)
  rw [h, List.findIdx?_append]
  cases hfind : ts.findIdx? Taken.alarmed with
  | some i =>
    have hnot : ¬Writes c ts t .alarm := by
      rintro ⟨-, -, hnone⟩
      have hsome : (ts.findIdx? Taken.alarmed).isSome := hfind ▸ rfl
      rw [List.findIdx?_isSome, List.any_eq_true] at hsome
      obtain ⟨u, hu, halarm⟩ := hsome
      exact hnone u hu ⟨himage u (List.mem_append_left _ hu), halarm⟩
    rw [if_neg hnot]
    simp
  | none =>
    have hquiet : ∀ u ∈ ts, ¬(u.packet.image = true ∧ u.alarmed = true) := by
      intro u hu halarm
      have hfalse := List.findIdx?_eq_none_iff.mp hfind u hu
      rw [halarm.2] at hfalse
      contradiction
    have hiff : Writes c ts t .alarm ↔ t.alarmed = true :=
      ⟨fun h ↦ h.2.1, fun h ↦ ⟨ht, h, hquiet⟩⟩
    simp only [hiff, List.findIdx?_cons, List.findIdx?_nil]
    cases t.alarmed <;> simp

theorem Adds.rows (h : Adds c ts t e e') :
    ∀ row ∈ framesRows e.dbQueue, row ∈ framesRows e'.dbQueue := by
  intro row hrow
  cases h with
  | skipped _ _ hq => rwa [hq]
  | waits _ _ _ _ _ hq => rwa [hq]
  | flushed _ _ _ _ _ hq =>
    rw [hq, framesRows_append]
    exact List.mem_append_left _ hrow

theorem Adds.thumbnail (h : Adds c ts t e e') (hrow : HasRow c ts t)
    (hw : Writes c ts t .snapshot ∨ Writes c ts t .alarm) :
    ∃ row ∈ framesRows e'.dbQueue, row.frameId = ts.length + 1 := by
  cases h with
  | skipped hnone => exact absurd hrow hnone
  | waits _ hsnapshot halarm => exact absurd hw (not_or.mpr ⟨hsnapshot, halarm⟩)
  | flushed stats _ _ _ _ hq =>
    refine ⟨rowOf c ts t, ?_, rfl⟩
    rw [hq]
    simp [Statement.frames]

theorem pictured_step (hk : Kept c (taken ops) s) (h : Pictured c (taken ops) s)
    (hs : step c s op = some s')
    (hfirst : ∀ u, (taken (ops ++ [op])).head? = some u → u.packet.image = true) :
    Pictured c (taken (ops ++ [op])) s' := by
  rw [taken_concat] at hfirst ⊢
  cases step_moves hs with
  | addPacket packet reading hstopped =>
    cases hop : (Op.addPacket packet reading).taken? with
    | none =>
      rw [Option.toList_none, List.append_nil]
      obtain ⟨-, -, hqueue, -, himages⟩ := addPacket_none (c := c) hk.follows hop
      have hsame (file : ImageFile) :
          (s.event.addPacket c reading packet).pictures file = s.event.pictures file := by
        rw [Event.pictures, himages]
        rfl
      refine ⟨?_, ?_, ?_⟩
      · rw [hsame, hsame, hqueue]
        exact h.rows
      · rw [hsame]
        exact h.snapshot
      · rw [hsame]
        exact h.alarm
    | some t =>
      rw [hop, Option.toList_some] at hfirst
      rw [Option.toList_some]
      obtain ⟨-, hadds, himages⟩ := addPacket_some (c := c) hk.follows hop
      refine ⟨?_, ?_, ?_⟩
      · intro n hn
        rw [pictures_concat himages, pictures_concat himages] at hn
        by_cases hold : n ∈ s.event.pictures .snapshot ∨ n ∈ s.event.pictures .alarm
        · obtain ⟨row, hrow, hid⟩ := h.rows n hold
          refine ⟨row, ?_, hid⟩
          rcases List.mem_append.mp hrow with hdone | hqueued
          · exact List.mem_append_left _ hdone
          · exact List.mem_append_right _ (hadds.rows row hqueued)
        · have hnew : n = (taken ops).length + 1 ∧ (Writes c (taken ops) t .snapshot ∨
              Writes c (taken ops) t .alarm) := by
            simp only [List.mem_append, List.mem_ite_nil_right, List.mem_singleton] at hn
            tauto
          obtain ⟨row, hrow, hid⟩ := hadds.thumbnail (hasRow_of_writes hfirst hnew.2) hnew.2
          exact ⟨row, List.mem_append_right _ hrow, hid.trans hnew.1.symm⟩
      · intro himage
        have hne : taken ops ++ [t] ≠ [] := List.append_ne_nil_of_right_ne_nil _ nofun
        rw [pictures_concat himages, if_neg hne]
        exact snapshot_concat himage
          (h.snapshot fun u hu ↦ himage u (List.mem_append_left _ hu))
      · intro himage
        rw [pictures_concat himages]
        exact alarm_concat himage (h.alarm fun u hu ↦ himage u (List.mem_append_left _ hu))
  | @execute statement rest hqueue =>
    change Pictured c (taken ops ++ []) _
    rw [List.append_nil]
    refine ⟨fun n hn ↦ ?_, h.snapshot, h.alarm⟩
    obtain ⟨row, hrow, hid⟩ := h.rows n hn
    refine ⟨row, ?_, hid⟩
    rw [hqueue] at hrow
    simpa using hrow
  | stop =>
    change Pictured c (taken ops ++ []) _
    rw [List.append_nil]
    rcases stop_cases c s.event with ⟨-, heq⟩ | ⟨stats, -, heq⟩
    · rw [heq]
      exact ⟨h.rows, h.snapshot, h.alarm⟩
    · rw [heq]
      refine ⟨fun n hn ↦ ?_, h.snapshot, h.alarm⟩
      obtain ⟨row, hrow, hid⟩ := h.rows n hn
      refine ⟨row, ?_, hid⟩
      rw [framesRows_append, ← List.append_assoc]
      exact List.mem_append_left _ hrow
  | finish now =>
    change Pictured c (taken ops ++ []) _
    rw [List.append_nil]
    refine ⟨fun n hn ↦ ?_, h.snapshot, h.alarm⟩
    obtain ⟨row, hrow, hid⟩ := h.rows n hn
    refine ⟨row, ?_, hid⟩
    rw [framesRows_append]
    rcases List.mem_append.mp hrow with hdone | hqueued
    · exact List.mem_append_left _ (List.mem_append_left _ hdone)
    · exact List.mem_append_right _ hqueued

/-- Each frame that snapshot.jpg or alarm.jpg was taken of has its row on the way to the database
as soon as the file is written, provided the first frame has a picture. Where all have one,
snapshot.jpg shows the frame that the event has for its highest score, and alarm.jpg the first
alarm frame. -/
theorem thumbnails_recorded (h : Run (step c) (fun _ _ ↦ True) (.init c) ops s)
    (hfirst : ∀ u, (taken ops).head? = some u → u.packet.image = true) :
    (∀ n, n ∈ s.event.pictures .snapshot ∨ n ∈ s.event.pictures .alarm →
        ∃ row ∈ framesRows s.executed ++ framesRows s.event.dbQueue, row.frameId = n) ∧
      ((∀ t ∈ taken ops, t.packet.image = true) →
        (s.event.pictures .snapshot).getLast? =
            (if taken ops = [] then none else some s.event.maxScoreFrameId) ∧
          s.event.pictures .alarm =
            (((taken ops).findIdx? Taken.alarmed).map (· + 1)).toList) := by
  have hrun := h.invariant_along
    (I := fun ops s ↦ Kept c (taken ops) s ∧
      ((∀ u, (taken ops).head? = some u → u.packet.image = true) → Pictured c (taken ops) s))
    (fun ops s op s' hk _ hs ↦ ⟨kept_step hk.1 hs, fun hfirst ↦ pictured_step hk.1
      (hk.2 fun u hu ↦ hfirst u (by rw [taken_concat, List.head?_append, hu]; rfl)) hs hfirst⟩)
    ⟨kept_init, fun _ ↦ pictured_init⟩
  obtain ⟨hkept, hpictured⟩ := hrun
  obtain ⟨hrows, hsnapshot, halarm⟩ := hpictured hfirst
  refine ⟨hrows, fun himage ↦ ⟨?_, halarm himage⟩⟩
  rw [hsnapshot himage, hkept.follows.maxScoreFrameId]

theorem thumbnails_recorded_alarm : ∃ s : Recording,
    (s.event.pictures .snapshot).getLast? = some s.event.maxScoreFrameId ∧
      s.event.pictures .alarm = [3] := by
  obtain ⟨s, hrun, -⟩ := Run.exists_of_any (step alarmSettings) (fun _ _ ↦ True)
    (.init alarmSettings) alarmOps (fun _ ↦ true) (by decide)
  have himage : ∀ t ∈ taken alarmOps, t.packet.image = true := by
    simp [taken, alarmOps, Op.taken?]
  obtain ⟨-, hall⟩ := thumbnails_recorded hrun
    fun u hu ↦ himage u (List.mem_of_mem_head? hu)
  obtain ⟨hsnapshot, halarm⟩ := hall himage
  exact ⟨s, hsnapshot, halarm⟩

end ZoneMinder.Recorder
