import ZoneMinder.EventStream.Table
import ZoneMinder.Recorder.Delivered

namespace ZoneMinder.Recorder

open Lib

/-- What the query for the rows of an event gives; its times are seconds since the epoch. -/
structure FrameSums where
  endTimeStamp : Option ℤ
  frames : Option ℕ
  alarmFrames : ℕ
  totScore : Option ℤ
  maxScore : Option ℤ

def selectFrames (rows : List Frame) : FrameSums where
  endTimeStamp := (rows.map fun r ↦ r.timestamp.tdiv 1000000000).max?
  frames := (rows.map Frame.frameId).max?
  alarmFrames := rows.countP fun r ↦ 0 < r.score
  totScore := rows.head?.map fun _ ↦ (rows.map Frame.score).sum
  maxScore := (rows.map Frame.score).max?

/-- An open event as Perl has it. -/
structure OpenEvent where
  id : ℕ
  name : Option String := some "New Event"
  start : Option ℤ
  length : Option ℚ := some 0
  frames : Option ℕ := none
  alarmFrames : Option ℕ := none
  totScore : Option ℤ := some 0
  maxScore : Option ℤ := some 0
  notes : String := ""

structure Changes where
  name : Option String
  endDateTime : ℤ
  length : ℚ
  frames : ℕ
  alarmFrames : ℕ
  totScore : ℤ
  avgScore : ℤ
  maxScore : ℤ
  notes : String

def recoveredName (eventPrefix : String) (id : ℕ) (tag : String) : String :=
  eventPrefix ++ toString id ++ tag

/-- ZoneMinder::Event::Close; an end worked out from the length is in whole seconds. -/
def close (eventPrefix : String) (frame : Option FrameSums) (event : OpenEvent)
    (tag : String := "(r)") (text : String := "Recovered.") : Except String Changes :=
  match frame with
  | none => .error "Unable to retrieve frame data."
  | some frame =>
    let start := event.start.getD 0
    if start = 0 then .error "Unable to determine the start time of the event."
    else
      let own := event.length.getD 0
      let (endDateTime, length) : ℤ × ℚ :=
        match frame.endTimeStamp with
        | none => (⌊start + own⌋, own)
        | some stamp =>
          if own > stamp - start then (⌊start + own⌋, own) else (stamp, stamp - start)
      let alarmFrames := max frame.alarmFrames (event.alarmFrames.getD 0)
      let totScore := max (frame.totScore.getD 0) (event.totScore.getD 0)
      .ok
        { name :=
            if event.name.getD "New Event" = "New Event"
            then some (recoveredName eventPrefix event.id tag) else none
          endDateTime := endDateTime
          length := length
          frames := max (frame.frames.getD 0) (event.frames.getD 0)
          alarmFrames := alarmFrames
          totScore := totScore
          avgScore := if alarmFrames ≠ 0 then totScore.tdiv alarmFrames else 0
          maxScore := max (frame.maxScore.getD 0) (event.maxScore.getD 0)
          notes := event.notes ++ " " ++ text }

/-- How zmaudit closes an event that was left open, from its rows alone. -/
def closeUnclosed (eventPrefix : String) (frame : FrameSums) (event : OpenEvent) : Changes :=
  let start := event.start.getD 0
  let stamp := frame.endTimeStamp.getD start
  { name := some (recoveredName eventPrefix event.id "(r)")
    endDateTime := stamp
    length := stamp - start
    frames := frame.frames.getD 0
    alarmFrames := frame.alarmFrames
    totScore := frame.totScore.getD 0
    avgScore :=
      if frame.alarmFrames ≠ 0 then (frame.totScore.getD 0).tdiv frame.alarmFrames else 0
    maxScore := frame.maxScore.getD 0
    notes := event.notes ++ " " ++ "Recovered." }

/-- The row of an event with what the recording has set in it; `hundredths` is what "%.2f" makes
of a number of seconds. -/
def stored (hundredths : ℚ → ℚ) (event : OpenEvent) (statements : List Statement) : OpenEvent :=
  match eventsRow statements with
  | none =>
    { event with
      length := some 0
      frames := none
      alarmFrames := none
      totScore := some 0
      maxScore := some 0 }
  | some (length, totals) =>
    { event with
      length := some (hundredths (EventStream.seconds length))
      frames := some totals.frames
      alarmFrames := some totals.alarmFrames
      totScore := some totals.totScore
      maxScore := some totals.maxScore }

variable {c : Settings} {ts before : List Taken} {t : Taken} {s : Recording} {ops : List Op}
  {l : List Frame} {hundredths : ℚ → ℚ}

theorem score_of_not_hasRow (h : ¬HasRow c ts t) : t.score = 0 ∧ t.alarmed = false := by
  have hnormal := not_not.mp (not_or.mp h).1
  have hquiet : ¬0 < t.packet.score := fun hpos ↦ by
    rw [frameType_alarm.mpr hpos] at hnormal
    contradiction
  exact ⟨max_eq_right (not_lt.mp hquiet), decide_eq_false hquiet⟩

theorem rows_sum : ((rows c ts).map Frame.score).sum = (ts.map Taken.score).sum := by
  induction ts using List.reverseRecOn with
  | nil => rfl
  | append_singleton ts t ih =>
    rw [rows_concat, List.map_append, List.sum_append, ih, List.map_append, List.sum_append]
    split
    · rfl
    · next hnone => simp [(score_of_not_hasRow hnone).1]

theorem rows_countP :
    (rows c ts).countP (fun r ↦ 0 < r.score) = ts.countP Taken.alarmed := by
  induction ts using List.reverseRecOn with
  | nil => rfl
  | append_singleton ts t ih =>
    rw [rows_concat, List.countP_append, ih, List.countP_append]
    congr 1
    split
    · have hpos : 0 < (rowOf c ts t).score ↔ t.alarmed = true := by
        simp [rowOf, Taken.score, Taken.alarmed]
      simp [List.countP_singleton, hpos]
    · next hnone => simp [(score_of_not_hasRow hnone).2]

theorem rows_loudest : ((rows c ts).map Frame.score).foldr max 0 = loudest ts := by
  induction ts using List.reverseRecOn with
  | nil => rfl
  | append_singleton ts t ih =>
    have hconcat (l : List Frame) (r : Frame) (hr : 0 ≤ r.score) :
        ((l ++ [r]).map Frame.score).foldr max 0 =
          max ((l.map Frame.score).foldr max 0) r.score := by
      induction l with
      | nil => exact max_comm _ _
      | cons q l ih =>
        rw [List.cons_append, List.map_cons, List.foldr_cons, ih, List.map_cons, List.foldr_cons,
          max_assoc]
    rw [rows_concat, loudest_concat, ← ih]
    split
    · exact hconcat _ _ t.score_nonneg
    · next hnone =>
      have hnonneg : 0 ≤ loudest ts := loudest_nonneg
      rw [List.append_nil, (score_of_not_hasRow hnone).1, ih, max_eq_left hnonneg]

theorem max?_getD {l : List ℤ} (h : ∀ x ∈ l, 0 ≤ x) : l.max?.getD 0 = l.foldr max 0 := by
  induction l with
  | nil => rfl
  | cons x l ih =>
    obtain ⟨hx, hl⟩ := List.forall_mem_cons.mp h
    rw [List.max?_cons, List.foldr_cons, ← ih hl]
    cases l.max? with
    | none => exact (max_eq_left hx).symm
    | some y => rfl

theorem rows_score_nonneg : ∀ x ∈ (rows c ts).map Frame.score, 0 ≤ x := by
  induction ts using List.reverseRecOn with
  | nil => exact List.forall_mem_nil _
  | append_singleton ts t ih =>
    rw [rows_concat, List.map_append]
    refine List.forall_mem_append.mpr ⟨ih, ?_⟩
    split
    · exact List.forall_mem_singleton.mpr t.score_nonneg
    · exact List.forall_mem_nil _

/-- The frame that the last of some rows belongs to. -/
def lastId (l : List Frame) : ℕ := (l.getLast?.map Frame.frameId).getD 0

/-- What has been written up to some row are the rows of the frames up to that one. -/
theorem prefix_rows (h : l <+: rows c ts) :
    l = rows c (ts.take (lastId l)) ∧ lastId l ≤ ts.length := by
  induction ts using List.reverseRecOn with
  | nil =>
    rw [List.prefix_nil.mp h]
    exact ⟨rfl, le_rfl⟩
  | append_singleton ts t ih =>
    have hearly (hl : l <+: rows c ts) :
        l = rows c ((ts ++ [t]).take (lastId l)) ∧ lastId l ≤ (ts ++ [t]).length := by
      obtain ⟨heq, hle⟩ := ih hl
      rw [List.take_append_of_le_length hle, List.length_append]
      exact ⟨heq, Nat.le_add_right_of_le hle⟩
    rw [rows_concat] at h
    split at h
    · next hrow =>
      rcases List.prefix_concat_iff.mp h with hwhole | hl
      · have hid : lastId l = (ts ++ [t]).length := by
          rw [hwhole, lastId, List.getLast?_concat, List.length_append]
          rfl
        rw [hid, List.take_length, rows_concat, if_pos hrow]
        exact ⟨hwhole, le_rfl⟩
      · exact hearly hl
    · rw [List.append_nil] at h
      exact hearly h

theorem le_lastId {l : List Frame} {row : Frame}
    (h : l.Pairwise fun r r' ↦ r.frameId < r'.frameId) (hrow : row ∈ l) :
    row.frameId ≤ lastId l := by
  induction l using List.reverseRecOn with
  | nil => contradiction
  | append_singleton l last ih =>
    rw [lastId, List.getLast?_concat]
    rcases List.mem_append.mp hrow with hold | hnew
    · exact ((List.pairwise_append.mp h).2.2 row hold last List.mem_cons_self).le
    · rw [List.mem_singleton.mp hnew]
      exact le_rfl

theorem max?_frameId {l : List Frame} (h : l.Pairwise fun r r' ↦ r.frameId < r'.frameId) :
    (l.map Frame.frameId).max?.getD 0 = lastId l := by
  cases hlast : l.getLast? with
  | none =>
    rw [List.getLast?_eq_none_iff.mp hlast]
    rfl
  | some row =>
    have hmem : row ∈ l := List.mem_of_getLast? hlast
    have hid : lastId l = row.frameId := by rw [lastId, hlast]; rfl
    have hmax : (l.map Frame.frameId).max? = some row.frameId := by
      refine List.max?_eq_some_iff.mpr ⟨List.mem_map_of_mem hmem, ?_⟩
      intro id hid'
      obtain ⟨r, hr, rfl⟩ := List.mem_map.mp hid'
      exact hid ▸ le_lastId h hr
    rw [hmax, hid]
    rfl

/-- The query for the rows of some frames, all of which up to the last one with a row. -/
structure SumsTo (ts : List Taken) (sums : FrameSums) : Prop where
  frames : sums.frames.getD 0 = ts.length
  alarmFrames : sums.alarmFrames = ts.countP Taken.alarmed
  totScore : sums.totScore.getD 0 = (ts.map Taken.score).sum
  maxScore : sums.maxScore.getD 0 = loudest ts

theorem selectFrames_sums (h : l <+: rows c ts) :
    SumsTo (ts.take (lastId l)) (selectFrames l) := by
  obtain ⟨heq, hle⟩ := prefix_rows h
  have hincreasing := rowsFrom_increasing c [] (ts.take (lastId l))
  constructor
  · rw [List.length_take_of_le hle]
    exact max?_frameId (heq ▸ hincreasing)
  · rw [← rows_countP (c := c), ← heq]
    rfl
  · rw [← rows_sum (c := c), ← heq]
    cases l <;> rfl
  · rw [← rows_loudest (c := c), ← heq]
    exact max?_getD (heq ▸ rows_score_nonneg)

theorem executed_rows (h : Kept c ts s) : framesRows s.executed <+: rows c ts :=
  ⟨framesRows s.event.dbQueue ++ s.event.frameData, by rw [← List.append_assoc, h.rows]⟩

/-- The row of an event that is still open covers frames that have been written. -/
theorem stored_covers (hk : Kept c ts s) (h : Updated c ts s) (hundredths : ℚ → ℚ)
    (event : OpenEvent) :
    ∃ m ≤ lastId (framesRows s.executed), m ≤ ts.length ∧
      (stored hundredths event s.executed).frames.getD 0 = (ts.take m).length ∧
      (stored hundredths event s.executed).alarmFrames.getD 0 = (ts.take m).countP Taken.alarmed ∧
      (stored hundredths event s.executed).totScore.getD 0 =
        ((ts.take m).map Taken.score).sum ∧
      (stored hundredths event s.executed).maxScore.getD 0 = loudest (ts.take m) := by
  unfold stored
  split
  · exact ⟨0, Nat.zero_le _, Nat.zero_le _, rfl, rfl, rfl, rfl⟩
  · next length totals hrow =>
    obtain ⟨others, hothers⟩ := List.getLast?_eq_some_iff.mp hrow
    have hmem : (length, totals) ∈ s.executed.filterMap Statement.update? := by
      rw [hothers]
      exact List.mem_append_right _ List.mem_cons_self
    obtain ⟨statement, hstatement, hupdate⟩ := List.mem_filterMap.mp hmem
    obtain ⟨early, late, hsplit⟩ := List.append_of_mem hstatement
    have htimely := h.along early statement
      ⟨late ++ s.event.dbQueue, by rw [hsplit]; simp⟩
    cases statement with
    | insertFrames => contradiction
    | insertStats => contradiction
    | updateEvent l u =>
      obtain ⟨rfl, rfl⟩ := Prod.mk.inj (Option.some.inj hupdate)
      obtain ⟨row, hlast, -, hle, htotals, hrows⟩ := htimely
      refine ⟨row.frameId, ?_, hle, ?_⟩
      · have hearly : lastId (framesRows early) = row.frameId := by rw [lastId, hlast]; rfl
        have hincreasing := rowsFrom_increasing c [] ts
        apply le_lastId (hincreasing.sublist (executed_rows hk).sublist)
        rw [hsplit, framesRows_append]
        exact List.mem_append_left _ (List.mem_of_getLast? hlast)
      · rw [htotals]
        exact ⟨rfl, rfl, rfl, rfl⟩

/-- What an event is closed with are the counts of some frames. -/
structure Restores (ts : List Taken) (changes : Changes) : Prop where
  frames : changes.frames = ts.length
  alarmFrames : changes.alarmFrames = ts.countP Taken.alarmed
  totScore : changes.totScore = (ts.map Taken.score).sum
  avgScore : changes.avgScore = (totalsOf ts).avgScore
  maxScore : changes.maxScore = loudest ts

theorem avgScore_eq (ts : List Taken) :
    (if ts.countP Taken.alarmed ≠ 0 then
      (ts.map Taken.score).sum.tdiv (ts.countP Taken.alarmed) else 0) = (totalsOf ts).avgScore := by
  have hnonneg : 0 ≤ (ts.map Taken.score).sum := by
    apply List.sum_nonneg
    intro score hscore
    obtain ⟨t, -, rfl⟩ := List.mem_map.mp hscore
    exact t.score_nonneg
  rw [totalsOf]
  split
  · exact Int.tdiv_eq_ediv_of_nonneg hnonneg
  · next hnone =>
    rw [not_not.mp hnone]
    exact (Int.ediv_zero _).symm

theorem sum_take_le {m n : ℕ} (h : m ≤ n) (ts : List Taken) :
    ((ts.take m).map Taken.score).sum ≤ ((ts.take n).map Taken.score).sum := by
  rw [← List.take_append_drop m (ts.take n), List.take_take, min_eq_left h, List.map_append,
    List.sum_append]
  refine le_add_of_nonneg_right (List.sum_nonneg fun score hscore ↦ ?_)
  obtain ⟨t, -, rfl⟩ := List.mem_map.mp hscore
  exact t.score_nonneg

theorem loudest_take_le {m n : ℕ} (h : m ≤ n) (ts : List Taken) :
    loudest (ts.take m) ≤ loudest (ts.take n) := by
  by_cases hnil : ts.take m = []
  · rw [hnil]
    exact loudest_nonneg
  · obtain ⟨t, ht, hscore⟩ := exists_loudest hnil
    rw [← hscore]
    exact le_loudest (List.take_subset_take_left ts h ht)

/-- Close takes the larger of the two for each count. -/
theorem close_larger {sums : FrameSums} {event : OpenEvent} (hstart : event.start.getD 0 ≠ 0)
    (eventPrefix tag text : String) :
    ∃ changes, close eventPrefix (some sums) event tag text = .ok changes ∧
      changes.frames = max (sums.frames.getD 0) (event.frames.getD 0) ∧
      changes.alarmFrames = max sums.alarmFrames (event.alarmFrames.getD 0) ∧
      changes.totScore = max (sums.totScore.getD 0) (event.totScore.getD 0) ∧
      changes.avgScore = (if changes.alarmFrames ≠ 0
        then changes.totScore.tdiv changes.alarmFrames else 0) ∧
      changes.maxScore = max (sums.maxScore.getD 0) (event.maxScore.getD 0) := by
  unfold close
  simp only [if_neg hstart]
  exact ⟨_, rfl, rfl, rfl, rfl, rfl, rfl⟩

/-- However far an event that was left open had got, both ways to close it find the counts of its
frames up to the last one whose row was written, the one from the rows alone and the other from
whichever is further, the rows or the row of the event. -/
theorem recovered_exact (h : Run (step c) (fun _ _ ↦ True) (.init c) ops s)
    (hopen : s.finished = false) (hundredths : ℚ → ℚ) (event : OpenEvent)
    (hstart : event.start.getD 0 ≠ 0) (eventPrefix tag text : String) :
    let found := selectFrames (framesRows s.executed)
    let written := (taken ops).take (lastId (framesRows s.executed))
    (∃ changes, close eventPrefix (some found) (stored hundredths event s.executed) tag text =
        .ok changes ∧ Restores written changes) ∧
      Restores written
        (closeUnclosed eventPrefix found (stored hundredths event s.executed)) := by
  intro found written
  have hkept := run_kept h
  have hsums : SumsTo written found := selectFrames_sums (executed_rows hkept)
  have hwritten : written.length = lastId (framesRows s.executed) :=
    List.length_take_of_le (prefix_rows (executed_rows hkept)).2
  obtain ⟨m, hm, hlength, hframes, halarms, htot, hmax⟩ :=
    stored_covers hkept (run_updated h hopen) hundredths event
  have hstored : (stored hundredths event s.executed).start = event.start := by
    unfold stored
    split <;> rfl
  have halarm : max found.alarmFrames ((stored hundredths event s.executed).alarmFrames.getD 0) =
      written.countP Taken.alarmed := by
    rw [hsums.alarmFrames, halarms]
    exact max_eq_left (List.Sublist.countP_le (List.take_sublist_take_left hm))
  have htotal : max (found.totScore.getD 0)
      ((stored hundredths event s.executed).totScore.getD 0) =
      (written.map Taken.score).sum := by
    rw [hsums.totScore, htot]
    exact max_eq_left (sum_take_le hm _)
  constructor
  · obtain ⟨changes, hclose, hf, ha, ht, havg, hs⟩ := @close_larger found
      (stored hundredths event s.executed) (hstored ▸ hstart) eventPrefix tag text
    have halarmed := ha.trans halarm
    have hscored := ht.trans htotal
    refine ⟨changes, hclose, ?_, halarmed, hscored, ?_, ?_⟩
    · rw [hf, hsums.frames, hframes, hwritten, List.length_take_of_le hlength]
      exact max_eq_left hm
    · rw [havg, halarmed, hscored]
      exact avgScore_eq written
    · rw [hs, hsums.maxScore, hmax]
      exact max_eq_left (loudest_take_le hm _)
  · refine ⟨hsums.frames, hsums.alarmFrames, hsums.totScore, ?_, hsums.maxScore⟩
    unfold closeUnclosed
    dsimp only
    rw [hsums.alarmFrames, hsums.totScore]
    exact avgScore_eq written

/-- The daemon was killed when the row of its alarm frame was written and the row of the event
was not. -/
theorem recovered_exact_killed : ∃ (s : Recording) (changes : Changes),
    (eventsRow s.executed).map (fun u ↦ u.2.frames) = some 1 ∧
      close "Event-" (some (selectFrames (framesRows s.executed)))
        (stored id { id := 1, start := some 1 } s.executed) = .ok changes ∧
      Restores (taken alarmOps) changes := by
  obtain ⟨s, hrun, hs⟩ := Run.exists_of_any (step alarmSettings) (fun _ _ ↦ True)
    (.init alarmSettings) (alarmOps ++ [.execute, .execute, .execute])
    (fun s ↦ !s.finished && (eventsRow s.executed).map (fun u ↦ u.2.frames) = some 1 &&
      lastId (framesRows s.executed) = 3) (by decide)
  simp only [Bool.and_eq_true, Bool.not_eq_true', decide_eq_true_eq] at hs
  obtain ⟨⟨hopen, hrow⟩, hlast⟩ := hs
  obtain ⟨⟨changes, hclose, hrestores⟩, -⟩ := recovered_exact hrun hopen id
    { id := 1, start := some 1 } (by decide) "Event-" "(r)" "Recovered."
  rw [hlast] at hrestores
  exact ⟨s, changes, hrow, hclose, hrestores⟩

/-- The rows that the query of playback gives. -/
def playbackRows (hundredths : ℚ → ℚ) (rows : List Frame) : List EventStream.Row :=
  rows.map fun r ↦ ⟨r.frameId, hundredths (EventStream.seconds r.delta)⟩

/-- A row that playback has at its index, with its offset. -/
def Stands (arith : EventStream.Arith) (row : EventStream.Row)
    (frames : List EventStream.FrameData) : Prop :=
  ∃ frame, frames[(row.frameId - 1).toNat]? = some frame ∧
    frame.offset = arith.micros row.delta ∧ frame.inDb = true

theorem seconds_mono : Monotone EventStream.seconds := by
  intro a b hab
  unfold EventStream.seconds
  exact div_le_div_of_nonneg_right (by exact_mod_cast hab) (by norm_num)

theorem rowsFrom_deltas (hclock : (before ++ ts).Pairwise fun t u ↦
      t.packet.timestamp ≤ u.packet.timestamp) :
    (rowsFrom c before ts).Pairwise (fun r r' ↦ r.delta ≤ r'.delta) ∧
      ∀ row ∈ rowsFrom c before ts, ∃ t ∈ ts,
        row.delta = (t.packet.timestamp - c.startTime).tdiv 1000 := by
  induction ts generalizing before with
  | nil => exact ⟨.nil, List.forall_mem_nil _⟩
  | cons t ts ih =>
    rw [List.append_cons] at hclock
    obtain ⟨hdeltas, hrows⟩ := ih hclock
    rw [rowsFrom]
    constructor
    · split
      · refine List.pairwise_cons.mpr ⟨fun row hrow ↦ ?_, hdeltas⟩
        obtain ⟨u, hu, hdelta⟩ := hrows row hrow
        rw [hdelta]
        apply Int.tdiv_le_tdiv (by decide)
        have hle := (List.pairwise_append.mp hclock).2.2 t
          (List.mem_append_right _ List.mem_cons_self) u hu
        omega
      · exact hdeltas
    · refine List.forall_mem_append.mpr ⟨?_, fun row hrow ↦ ?_⟩
      · split
        · exact List.forall_mem_singleton.mpr ⟨t, List.mem_cons_self, rfl⟩
        · exact List.forall_mem_nil _
      · obtain ⟨u, hu, hdelta⟩ := hrows row hrow
        exact ⟨u, List.mem_cons_of_mem _ hu, hdelta⟩

/-- Rows that start with the first frame fill the table of playback. -/
theorem loadFrames_table {arith : EventStream.Arith} {event : EventStream.EventRow}
    {running : List Bool} {rows : List EventStream.Row} (hmicros : Monotone arith.micros)
    (hids : rows.Pairwise fun r r' ↦ r.frameId < r'.frameId)
    (hdeltas : rows.Pairwise fun r r' ↦ r.delta ≤ r'.delta)
    (hhead : ∀ row, rows.head? = some row → row.frameId = 1 ∧ 0 ≤ arith.micros row.delta) :
    ∃ frames lastId, EventStream.loadFrames arith event rows running = .ok (frames, lastId) ∧
      EventStream.Table event.startTime frames ∧ ∀ row ∈ rows, Stands arith row frames := by
  have hfollows : ∀ row, rows.head? = some row →
      EventStream.Follows arith { lastTimestamp := event.startTime } row := by
    intro row hrow
    obtain ⟨hid, hoffset⟩ := hhead row hrow
    exact ⟨by rw [hid]; exact Int.zero_lt_one, hoffset, fun _ ↦ hid⟩
  obtain ⟨filled, hfilled, hsound⟩ := EventStream.addRows_sound
    (EventStream.sound_init event.startTime) hmicros hids hdeltas hfollows
  obtain ⟨whole, offset, hwhole, haligned⟩ := @EventStream.trailing_aligned arith
    event running _ hsound (max event.frameCount rows.length)
  have hload : EventStream.loadFrames arith event rows running =
      .ok (whole.frames, whole.lastId) := by
    unfold EventStream.loadFrames
    rw [hfilled]
    change (EventStream.trailing arith event (max event.frameCount rows.length) running filled >>=
      fun c ↦ pure (c.frames, c.lastId)) = _
    rw [hwhole]
    rfl
  refine ⟨whole.frames, whole.lastId, hload, haligned.table, fun row hrow ↦ ?_⟩
  obtain ⟨frame, hframe, hid, hoffset, hdb⟩ := EventStream.loadFrames_mem hload row hrow
  exact ⟨frame, hid ▸ haligned.table.getElem? hframe, hoffset, hdb⟩

/-- Whatever part of an event has been written when it is played, playback fills its table from
it: frame `i` at index `i - 1`, each row at its own, and time never goes back. -/
theorem recorded_plays {arith : EventStream.Arith}
    (h : Run (step c) (fun _ _ ↦ True) (.init c) ops s)
    (hclock : (taken ops).Pairwise fun t u ↦ t.packet.timestamp ≤ u.packet.timestamp)
    (hstart : ∀ t ∈ taken ops, c.startTime ≤ t.packet.timestamp)
    (hmicros : Monotone arith.micros) (hzero : arith.micros 0 = 0)
    (hround : Monotone hundredths) (hnone : hundredths 0 = 0)
    (event : EventStream.EventRow) (running : List Bool) :
    ∃ frames lastId, EventStream.loadFrames arith event
        (playbackRows hundredths (framesRows s.executed)) running = .ok (frames, lastId) ∧
      EventStream.Table event.startTime frames ∧
      ∀ row ∈ playbackRows hundredths (framesRows s.executed), Stands arith row frames := by
  have hprefix := executed_rows (run_kept h)
  have hsub := hprefix.sublist
  obtain ⟨hdeltas, hrows⟩ := @rowsFrom_deltas c (taken ops) [] hclock
  apply loadFrames_table hmicros
  · apply List.pairwise_map.mpr
    exact ((rowsFrom_increasing c [] _).sublist hsub).imp fun {r r'} hlt ↦ Int.ofNat_lt.mpr hlt
  · apply List.pairwise_map.mpr
    exact (hdeltas.sublist hsub).imp fun {r r'} hle ↦ hround (seconds_mono hle)
  · intro row hrow
    rw [playbackRows, List.head?_map, Option.map_eq_some_iff] at hrow
    obtain ⟨r, hr, rfl⟩ := hrow
    have hmem : r ∈ rows c (taken ops) := hsub.subset (List.mem_of_mem_head? hr)
    constructor
    · obtain ⟨rest, hrest⟩ := List.head?_eq_some_iff.mp hr
      obtain ⟨later, hlater⟩ := hprefix
      have hhead := rows_head c (taken ops)
      rw [← hlater, hrest, List.cons_append, List.head?_cons, Option.map_some] at hhead
      obtain ⟨-, -, hone⟩ := Option.map_eq_some_iff.mp hhead.symm
      exact congrArg Nat.cast hone.symm
    · obtain ⟨t, ht, hdelta⟩ := hrows r hmem
      have hdelta_nonneg : 0 ≤ r.delta := by
        rw [hdelta]
        exact Int.tdiv_nonneg (by have := hstart t ht; omega) (by decide)
      have hseconds : (0 : ℚ) = EventStream.seconds 0 := by simp [EventStream.seconds]
      rw [← hzero, ← hnone, hseconds]
      exact hmicros (hround (seconds_mono hdelta_nonneg))

/-- Two rows have been written, the second one two seconds behind the start. -/
theorem recorded_plays_alarm : ∃ (s : Recording) (frames : List EventStream.FrameData) (lastId : ℤ),
    (framesRows s.executed).map (fun r ↦ (r.frameId, r.delta)) = [(1, 0), (3, 2000000)] ∧
      EventStream.loadFrames ⟨fun x ↦ ⌊x * 1000000⌋, fun x ↦ ⌊x⌋⟩ ⟨3, 1000000000, 0, 0⟩
        (playbackRows id (framesRows s.executed)) [] = .ok (frames, lastId) ∧
      EventStream.Table 1000000000 frames ∧
      ∃ frame, frames[2]? = some frame ∧ frame.offset = 2000000 ∧ frame.inDb = true := by
  obtain ⟨s, hrun, hs⟩ := Run.exists_of_any (step alarmSettings) (fun _ _ ↦ True)
    (.init alarmSettings) (alarmOps ++ [.execute, .execute, .execute])
    (fun s ↦ (framesRows s.executed).map (fun r ↦ (r.frameId, r.delta)) = [(1, 0), (3, 2000000)])
    (by decide)
  have hrows := of_decide_eq_true hs
  have htaken : taken alarmOps =
      taken (alarmOps ++ [.execute, .execute, .execute]) := rfl
  have hmicros : Monotone fun x : ℚ ↦ ⌊x * 1000000⌋ := by
    intro x y hxy
    exact Int.floor_le_floor (mul_le_mul_of_nonneg_right hxy (by norm_num))
  obtain ⟨frames, lastId, hload, htable, hstands⟩ := @recorded_plays _ _ _ id
    ⟨fun x ↦ ⌊x * 1000000⌋, fun x ↦ ⌊x⌋⟩ hrun
    (htaken ▸ by simp [taken, alarmOps, Op.taken?])
    (htaken ▸ by simp [taken, alarmOps, Op.taken?, alarmSettings]) hmicros (by simp) monotone_id rfl
    ⟨3, 1000000000, 0, 0⟩ []
  obtain ⟨r, hr, hrow⟩ : ∃ r ∈ framesRows s.executed, (r.frameId, r.delta) = (3, 2000000) := by
    rw [← List.mem_map, hrows]
    exact List.mem_cons_of_mem _ List.mem_cons_self
  obtain ⟨hid, hdelta⟩ := Prod.mk.inj hrow
  obtain ⟨frame, hframe, hoffset, hdb⟩ := hstands _ (List.mem_map_of_mem hr)
  refine ⟨s, frames, lastId, hrows, hload, htable, frame, ?_, ?_, hdb⟩
  · simpa [hid] using hframe
  · rw [hoffset, hdelta]
    norm_num [EventStream.seconds]

end ZoneMinder.Recorder
