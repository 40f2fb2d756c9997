import ZoneMinder.EventStream.Table

namespace ZoneMinder.EventStream

variable {arith : Arith} {event : EventRow} {rows rest : List Row} {row : Row} {running : List Bool}
  {c : Fill} {startTime endTime delta frameCount first : ℤ} {fuel n : ℕ}

/-- The time of the last row, or the start of the event where there is none. -/
def lastFrameTime (arith : Arith) (event : EventRow) (rows : List Row) : ℤ :=
  match rows.getLast? with
  | none => event.startTime
  | some row => event.startTime + 1000 * arith.micros row.delta

/-- Frames that are not in the database, `delta` apart behind a time, up to the end of the event
and not past it. -/
structure Spaced (endTime delta time : ℤ) (tail : List FrameData) : Prop where
  filled : ∀ frame ∈ tail, frame.inDb = false
  times : ∀ i (h : i < tail.length), (tail[i]).timestamp = time + 1000 * ((i + 1) * delta)
  within : time + 1000 * (tail.length * delta) ≤ endTime
  upTo : endTime < time + 1000 * ((tail.length + 1) * delta)

def SpacedTo (rows : List Row) (endTime : ℤ) (frames : List FrameData) : Prop :=
  frames = [] ∨ ∃ known last tail delta, frames = known ++ last :: tail ∧ 0 < delta ∧
    (if rows = [] then known = [] else last.inDb = true) ∧
      Spaced endTime delta last.timestamp tail

/-- The table is about as long as the event says, and evenly filled up to its end. -/
def RecordedLength (arith : Arith) (event : EventRow) (rows : List Row) (running : List Bool) :
    Prop :=
  ∃ frames lastId, loadFrames arith event rows running = .ok (frames, lastId) ∧
    event.frameCount ≤ frames.length ∧ frames.length ≤ event.frameCount + 1 ∧
      SpacedTo rows event.endTime frames

theorem exists_frameAt {frames : List FrameData} (hne : frames ≠ []) :
    ∃ frame, frameAt frames (frames.length - 1) = .ok frame := by
  have hpos := List.length_pos_iff.mpr hne
  have hget : ((frames.length : ℤ) - 1).toNat = frames.length - 1 := by omega
  refine ⟨frames[frames.length - 1], ?_⟩
  rw [frameAt, if_neg (by omega), hget, List.getElem?_eq_getElem (by omega)]

theorem Spaced.nil {time : ℤ} (hend : time ≤ endTime) (hlate : endTime < time + 1000 * delta) :
    Spaced endTime delta time [] where
  filled := by simp
  times := by simp
  within := by simpa using hend
  upTo := by simpa using hlate

theorem Spaced.cons {time : ℤ} {frame : FrameData} {tail : List FrameData}
    (hframe : frame.inDb = false) (htime : frame.timestamp = time + 1000 * delta)
    (h : Spaced endTime delta (time + 1000 * delta) tail) :
    Spaced endTime delta time (frame :: tail) where
  filled := by
    intro f hf
    rcases List.mem_cons.mp hf with rfl | hf
    · exact hframe
    · exact h.filled f hf
  times := by
    intro i hi
    cases i with
    | zero => simpa using htime
    | succ i =>
      have hlater := h.times i (by simpa using hi)
      rw [List.getElem_cons_succ, hlater]
      push_cast
      ring
  within := by
    have hwithin := h.within
    rw [List.length_cons]
    push_cast
    linarith
  upTo := by
    have hupTo := h.upTo
    rw [List.length_cons]
    push_cast
    linarith

theorem trailingFill_spaced (hidx : c.lastFrameIdx = c.frames.length - 1) (hne : c.frames ≠ [])
    (hdelta : 0 < delta) (hrunning : ∀ flag ∈ running, flag = true)
    (hend : c.lastTimestamp ≤ endTime) (hfuel : (endTime - c.lastTimestamp).toNat < fuel) :
    ∃ c' tail, trailingFill delta endTime c running fuel = .ok c' ∧ c'.frames = c.frames ++ tail ∧
      Spaced endTime delta c.lastTimestamp tail := by
  induction fuel generalizing c running with
  | zero => omega
  | succ fuel ih =>
    obtain ⟨prev, hprev⟩ := exists_frameAt hne
    rw [← hidx] at hprev
    rw [trailingFill]
    by_cases hlate : endTime > c.lastTimestamp
    · have hflag : running.headD true = true := by
        cases running with
        | nil => rfl
        | cons flag running => exact hrunning flag List.mem_cons_self
      rw [if_pos (by rw [hflag, decide_eq_true hlate]; rfl)]
      by_cases hbeyond : endTime < c.lastTimestamp + 1000 * delta
      · rw [if_pos hbeyond]
        exact ⟨_, [], rfl, (List.append_nil _).symm, .nil hend hbeyond⟩
      · rw [if_neg hbeyond]
        generalize hframe : FrameData.mk (c.lastId + 1) (c.lastTimestamp + 1000 * delta)
          (prev.offset + delta) delta false = frame
        obtain ⟨c', tail, hc', hframes, htail⟩ := @ih running.tail
          { c.emplaceBack frame with
            lastId := c.lastId + 1
            lastTimestamp := c.lastTimestamp + 1000 * delta }
          (by
            change (c.frames.length : ℤ) = ((c.emplaceBack frame).frames.length : ℤ) - 1
            rw [c.emplaceBack_length]
            omega)
          (c.emplaceBack_ne_nil frame) (fun flag hflag ↦ hrunning flag (List.mem_of_mem_tail hflag))
          (by dsimp only; omega) (by dsimp only; omega)
        refine ⟨c', frame :: tail, ?_, ?_, htail.cons (by rw [← hframe]) (by rw [← hframe])⟩
        · rw [← hc', ← hframe]
          simp only [hprev]
          rfl
        · rw [hframes]
          exact List.append_assoc _ _ _
    · rw [if_neg (by simp [hlate])]
      exact ⟨c, [], rfl, (List.append_nil _).symm, .nil hend (by omega)⟩

structure Fill.Counted (first : ℤ) (c : Fill) : Prop where
  idx : c.lastFrameIdx = c.frames.length - 1
  count : (c.frames.length : ℤ) = c.lastId + 1 - first
  last : ∃ known last, c.frames = known ++ [last] ∧ last.inDb = true ∧
    last.timestamp = c.lastTimestamp

theorem bulkFill_length {i : ℤ} (hidx : c.lastFrameIdx = c.frames.length - 1)
    (hne : c.frames ≠ []) :
    ∃ c', bulkFill startTime delta c i n = .ok c' ∧ c'.frames.length = c.frames.length + n := by
  induction n generalizing c i with
  | zero => exact ⟨c, rfl, rfl⟩
  | succ n ih =>
    obtain ⟨prev, hprev⟩ := exists_frameAt hne
    rw [← hidx] at hprev
    generalize hframe : FrameData.mk i (c.lastTimestamp + 1000 * ((i - c.lastId) * delta))
      ((prev.timestamp - startTime + 1000 * delta).tdiv 1000) delta false = frame
    have hlength := c.emplaceBack_length frame
    have hidx' : (c.emplaceBack frame).lastFrameIdx = (c.emplaceBack frame).frames.length - 1 := by
      change (c.frames.length : ℤ) = _
      rw [hlength]
      omega
    obtain ⟨c', hc', hcount⟩ := @ih (c.emplaceBack frame) (i + 1) hidx' (c.emplaceBack_ne_nil frame)
    refine ⟨c', ?_, by omega⟩
    rw [bulkFill, bulkFrame, hprev, ← hc', ← hframe]
    rfl

theorem addRow_of_fillGap
    (hgap : ∀ delta, ∃ b, fillGap startTime delta c row.frameId = .ok b ∧
      (b.frames.length : ℤ) = row.frameId - first) :
    ∃ c', addRow startTime arith c row = .ok c' ∧ c'.Counted first ∧ c'.lastId = row.frameId ∧
      c'.lastTimestamp = startTime + 1000 * arith.micros row.delta := by
  generalize hdelta : (if row.frameId - c.lastId ≠ 0 then
    (arith.micros row.delta - c.lastOffset).tdiv (row.frameId - c.lastId)
    else arith.micros row.delta - c.lastOffset) = delta
  obtain ⟨b, hb, hlength⟩ := hgap delta
  generalize hframe : FrameData.mk row.frameId (startTime + 1000 * arith.micros row.delta)
    (arith.micros row.delta) delta true = frame
  refine ⟨{ b.emplaceBack frame with
    lastId := row.frameId
    lastOffset := arith.micros row.delta
    lastTimestamp := startTime + 1000 * arith.micros row.delta }, ?_, ⟨?_, ?_, ?_⟩, rfl, rfl⟩
  · unfold addRow
    simp only [hdelta, hb, ← hframe]
    rfl
  · change (b.frames.length : ℤ) = ((b.emplaceBack frame).frames.length : ℤ) - 1
    rw [b.emplaceBack_length]
    omega
  · change ((b.emplaceBack frame).frames.length : ℤ) = row.frameId + 1 - first
    rw [b.emplaceBack_length]
    omega
  · exact ⟨b.frames, frame, rfl, by rw [← hframe], by rw [← hframe]⟩

theorem addRow_first (hfirst : row.frameId ≤ 1) (startTime : ℤ) :
    ∃ c', addRow startTime arith { lastTimestamp := startTime } row = .ok c' ∧
      c'.Counted row.frameId ∧ c'.lastId = row.frameId ∧
      c'.lastTimestamp = startTime + 1000 * arith.micros row.delta := by
  refine addRow_of_fillGap fun delta ↦ ⟨{ lastTimestamp := startTime }, ?_, by simp⟩
  rw [fillGap, if_neg (by dsimp only; omega)]
  rfl

theorem addRow_counted (h : c.Counted first) (hid : c.lastId < row.frameId) (startTime : ℤ) :
    ∃ c', addRow startTime arith c row = .ok c' ∧ c'.Counted first ∧ c'.lastId = row.frameId ∧
      c'.lastTimestamp = startTime + 1000 * arith.micros row.delta := by
  have hcount := h.count
  refine addRow_of_fillGap fun delta ↦ ?_
  rw [fillGap]
  split_ifs with hmany
  · obtain ⟨known, last, hframes, -, -⟩ := h.last
    obtain ⟨b, hb, hlength⟩ := @bulkFill_length c startTime delta
      (row.frameId - (c.lastId + 1)).toNat (c.lastId + 1) h.idx (by simp [hframes])
    exact ⟨b, hb, by omega⟩
  · exact ⟨c, rfl, by omega⟩

theorem addRows_counted (h : c.Counted first)
    (hids : rows.Pairwise fun r r' ↦ r.frameId < r'.frameId)
    (hlater : ∀ row ∈ rows, c.lastId < row.frameId) (startTime : ℤ) :
    ∃ c', rows.foldlM (addRow startTime arith) c = .ok c' ∧ c'.Counted first ∧
      c.lastId + rows.length ≤ c'.lastId ∧
      c'.lastId = (rows.getLast?.map Row.frameId).getD c.lastId ∧
      c'.lastTimestamp = (rows.getLast?.map fun row ↦
        startTime + 1000 * arith.micros row.delta).getD c.lastTimestamp := by
  induction rows generalizing c with
  | nil => exact ⟨c, rfl, h, by simp, rfl, rfl⟩
  | cons row rows ih =>
    obtain ⟨hid, hids⟩ := List.pairwise_cons.mp hids
    obtain ⟨b, hb, hcounted, hlastId, hlastTime⟩ :=
      @addRow_counted arith row c first h (hlater row List.mem_cons_self) startTime
    obtain ⟨c', hc', hcounted', hmany, hlastId', hlastTime'⟩ := ih hcounted hids
      (by rw [hlastId]; exact hid)
    have hnext := hlater row List.mem_cons_self
    refine ⟨c', ?_, hcounted', ?_, ?_, ?_⟩
    · rw [List.foldlM_cons, hb]
      exact hc'
    · rw [hlastId] at hmany
      rw [List.length_cons]
      push_cast
      omega
    · rw [hlastId', hlastId, List.getLast?_cons]
      cases rows.getLast? <;> rfl
    · rw [hlastTime', hlastTime, List.getLast?_cons]
      cases rows.getLast? <;> rfl

theorem trailing_delta {remaining missing : ℤ} (hmissing : 0 < missing) (hremaining : 0 ≤ remaining)
    (hdelta : delta = (remaining.tdiv missing).tdiv 1000) :
    1000 * (missing * delta) ≤ remaining ∧ remaining < 1000 * (missing * (delta + 1)) := by
  have hdiv : delta = remaining / (missing * 1000) := by
    rw [hdelta, Int.tdiv_eq_ediv_of_nonneg hremaining,
      Int.tdiv_eq_ediv_of_nonneg (Int.ediv_nonneg hremaining hmissing.le),
      Int.ediv_ediv_of_nonneg hmissing.le]
  have hpos : 0 < missing * 1000 := by omega
  have hle := Int.ediv_mul_le remaining hpos.ne'
  have hlt := Int.lt_ediv_add_one_mul_self remaining hpos
  rw [← hdiv] at hle hlt
  constructor <;> linarith

theorem trailing_delta_pos {remaining missing frameCount : ℤ} (hmissing : 0 < missing)
    (hcount : missing ≤ frameCount) (hremaining : 1000 * frameCount ^ 2 ≤ remaining)
    (hdelta : delta = (remaining.tdiv missing).tdiv 1000) : frameCount ≤ delta := by
  have hsquare : missing * frameCount ≤ frameCount ^ 2 := by
    rw [sq]
    exact Int.mul_le_mul_of_nonneg_right hcount (by omega)
  obtain ⟨-, hlt⟩ := trailing_delta hmissing (by linarith [sq_nonneg frameCount]) hdelta
  by_contra hnot
  have hmul := Int.mul_le_mul_of_nonneg_left (show delta + 1 ≤ frameCount by omega) hmissing.le
  linarith

/-- As many frames as are missing, where there is a microsecond for each frame of a frame. -/
theorem trailing_length {remaining missing frameCount k : ℤ} (hmissing : 0 < missing)
    (hcount : missing ≤ frameCount) (hremaining : 1000 * frameCount ^ 2 ≤ remaining)
    (hdelta : delta = (remaining.tdiv missing).tdiv 1000)
    (hwithin : 1000 * (k * delta) ≤ remaining) (hupTo : remaining < 1000 * ((k + 1) * delta)) :
    k = missing := by
  have hsquare : 0 ≤ frameCount ^ 2 := sq_nonneg frameCount
  obtain ⟨hle, hlt⟩ := trailing_delta hmissing (by linarith) hdelta
  have hmany : frameCount ≤ delta := trailing_delta_pos hmissing hcount hremaining hdelta
  have hpos : 0 < delta := by omega
  have hlow : missing < k + 1 := by
    by_contra hnot
    have hmul := Int.mul_le_mul_of_nonneg_right (not_lt.mp hnot) hpos.le
    linarith
  have hhigh : k < missing + 1 := by
    by_contra hnot
    have hmul := Int.mul_le_mul_of_nonneg_right (not_lt.mp hnot) hpos.le
    linarith
  omega

theorem loadFrames_of_trailing {c' : Fill}
    (hrows : rows.foldlM (addRow event.startTime arith) { lastTimestamp := event.startTime } = .ok c)
    (htrailing : trailing arith event (max event.frameCount rows.length) running c = .ok c') :
    loadFrames arith event rows running = .ok (c'.frames, c'.lastId) := by
  unfold loadFrames
  rw [hrows]
  change (trailing arith event (max event.frameCount rows.length) running c >>= fun c ↦
    pure (c.frames, c.lastId)) = _
  rw [htrailing]
  rfl

/-- The spacing that the code computes when there are no rows, and the first row otherwise. -/
def SpacingFits (arith : Arith) (event : EventRow) (rows : List Row) : Prop :=
  match rows with
  | row :: _ => row.frameId ≤ 1
  | [] =>
    let delta := arith.toInt (10 ^ 18 * event.frameCount / event.duration ^ 2)
    event.frameCount = 0 ∨ event.frameCount = 1 ∧ delta ≤ 0 ∨
      0 < delta ∧ 1000 * ((event.frameCount - 1) * delta) ≤ event.endTime - event.startTime ∧
        event.endTime - event.startTime < 1000 * ((event.frameCount + 1) * delta)

/-- The time between two frames as the source computes it, the frame rate over the duration. -/
theorem frameDelta (hduration : 0 < event.duration) (hcount : 0 < event.frameCount) :
    arith.toInt (1000000 * baseFps event / seconds event.duration) =
      arith.toInt (10 ^ 18 * event.frameCount / event.duration ^ 2) := by
  have hseconds : (0 : ℚ) < event.duration := by exact_mod_cast hduration
  have hframes : (0 : ℚ) < event.frameCount := by exact_mod_cast hcount
  have hfps : ¬(event.frameCount / seconds event.duration : ℚ) ≤ 0 := by
    rw [not_le, seconds]
    positivity
  have hbase : baseFps event = event.frameCount / seconds event.duration := by
    simp only [baseFps, ne_eq, hcount.ne', hduration.ne', not_false_eq_true, and_self, if_true,
      hfps, if_false]
  rw [hbase, seconds]
  congr 1
  field_simp
  norm_num

section Load

variable (hcount : 0 ≤ event.frameCount) (hduration : 0 < event.duration)
  (hepoch : 0 ≤ lastFrameTime arith event rows)
  (hend : lastFrameTime arith event rows < event.endTime)
  (hrunning : ∀ flag ∈ running, flag = true)
include hcount hduration hepoch hend hrunning

/-- Without rows the frame rate is divided by the duration, which the time between two frames
is not. -/
theorem recordedLength_empty (hrows : rows = []) :
    RecordedLength arith event rows running ↔ SpacingFits arith event rows := by
  subst hrows
  have hstart : lastFrameTime arith event [] = event.startTime := rfl
  have hmax : max event.frameCount ([] : List Row).length = event.frameCount := max_eq_left hcount
  rw [hstart] at hepoch hend
  by_cases hzero : event.frameCount = 0
  · have hnone : trailing arith event (max event.frameCount ([] : List Row).length) running
        { lastTimestamp := event.startTime } = .ok { lastTimestamp := event.startTime } := by
      rw [hmax, hzero, trailing, if_neg (by simp)]
    refine iff_of_true ⟨_, _, loadFrames_of_trailing rfl hnone, ?_, ?_, .inl rfl⟩ (.inl hzero)
    · rw [hzero]
      exact le_rfl
    · rw [hzero]
      simp
  generalize hdelta : arith.toInt (10 ^ 18 * event.frameCount / event.duration ^ 2) = delta
  generalize hframe : FrameData.mk 1 event.startTime 0 0 false = frame
  obtain ⟨t, ht⟩ : ∃ t : Fill, t = { Fill.emplaceBack { lastTimestamp := event.startTime } frame with
    lastId := 1, lastTimestamp := event.startTime } := ⟨_, rfl⟩
  have hfirst : trailingStart arith event event.frameCount { lastTimestamp := event.startTime } =
      (t, delta) := by
    rw [trailingStart, if_pos (by dsimp only; omega), frameDelta hduration (by omega), hdelta, hframe, ht]
    rfl
  have htrailing : trailing arith event event.frameCount running
      { lastTimestamp := event.startTime } =
        if delta > 0 then
          trailingFill delta event.endTime t running ((event.endTime - event.startTime).toNat + 1)
        else .ok t := by
    rw [trailing, if_pos ⟨by omega, by omega, by dsimp only; omega⟩, hfirst, ht]
  have hframes : t.frames = [frame] := by rw [ht]; rfl
  rw [← hmax] at htrailing
  unfold SpacingFits
  simp only [hdelta, hzero, false_or]
  by_cases hpos : 0 < delta
  · obtain ⟨c', tail, hc', htail, hspaced⟩ := @trailingFill_spaced running t event.endTime delta
      ((event.endTime - event.startTime).toNat + 1) (by rw [ht]; rfl) (by simp [hframes]) hpos
      hrunning (by rw [ht]; exact hend.le) (by rw [ht]; exact Nat.lt_succ_self _)
    rw [if_pos hpos, hc'] at htrailing
    have hload := loadFrames_of_trailing rfl htrailing
    have hlength : (c'.frames.length : ℤ) = tail.length + 1 := by simp [htail, hframes]
    have htime : t.lastTimestamp = event.startTime := by rw [ht]
    have hwithin := hspaced.within
    have hupTo := hspaced.upTo
    rw [htime] at hwithin hupTo hspaced
    constructor
    · rintro ⟨frames, lastId, hload', hle, hge, -⟩
      rw [hload] at hload'
      obtain ⟨rfl, -⟩ := Prod.ext_iff.mp (Except.ok.inj hload')
      dsimp only at hle hge
      refine .inr ⟨hpos, ?_, ?_⟩
      · have hmul := Int.mul_le_mul_of_nonneg_right
          (show event.frameCount - 1 ≤ tail.length by omega) hpos.le
        linarith
      · have hmul := Int.mul_le_mul_of_nonneg_right
          (show (tail.length : ℤ) + 1 ≤ event.frameCount + 1 by omega) hpos.le
        linarith
    · rintro (⟨-, hneg⟩ | ⟨-, hlow, hhigh⟩)
      · omega
      · refine ⟨_, _, hload, ?_, ?_, .inr ⟨[], frame, tail, delta, ?_, hpos, rfl, ?_⟩⟩
        · by_contra hnot
          have hmul := Int.mul_le_mul_of_nonneg_right
            (show (tail.length : ℤ) + 1 ≤ event.frameCount - 1 by omega) hpos.le
          linarith
        · by_contra hnot
          have hmul := Int.mul_le_mul_of_nonneg_right
            (show event.frameCount + 1 ≤ tail.length by omega) hpos.le
          linarith
        · rw [htail, hframes]
          rfl
        · rw [← hframe]
          exact hspaced
  · rw [if_neg hpos] at htrailing
    have hload := loadFrames_of_trailing rfl htrailing
    have hlength : (t.frames.length : ℤ) = 1 := by simp [hframes]
    constructor
    · rintro ⟨frames, lastId, hload', hle, hge, -⟩
      rw [hload] at hload'
      obtain ⟨rfl, -⟩ := Prod.ext_iff.mp (Except.ok.inj hload')
      dsimp only at hle
      exact .inl ⟨by omega, by omega⟩
    · rintro (⟨hone, -⟩ | ⟨hpos', -⟩)
      · refine ⟨_, _, hload, by omega, by omega, .inr ⟨[], frame, [], _, hframes,
          (by omega : 0 < event.endTime - event.startTime + 1), rfl, .nil ?_ ?_⟩⟩
        · rw [← hframe]
          exact hend.le
        · rw [← hframe]
          dsimp only
          omega
      · exact absurd hpos' hpos

omit hcount in
theorem recordedLength_rows (hrows : rows = row :: rest)
    (hids : rows.Pairwise fun r r' ↦ r.frameId < r'.frameId)
    (hunsigned : ∀ row ∈ rows, 0 ≤ row.frameId)
    (hmore : ∀ row ∈ rows.getLast?, row.frameId < event.frameCount)
    (hremaining : 1000 * event.frameCount ^ 2 ≤
      event.endTime - lastFrameTime arith event rows)
    (hfirst : row.frameId ≤ 1) : RecordedLength arith event rows running := by
  subst hrows
  obtain ⟨hid, hids⟩ := List.pairwise_cons.mp hids
  obtain ⟨b, hb, hcountedb, hidb, htimeb⟩ := @addRow_first arith row hfirst event.startTime
  obtain ⟨c, hc, hcounted, hmany, hlastId, hlastTime⟩ :=
    @addRows_counted arith rest b row.frameId hcountedb hids (by rw [hidb]; exact hid)
      event.startTime
  have hunsigned' := hunsigned row List.mem_cons_self
  have hrows : (row :: rest).foldlM (addRow event.startTime arith)
      { lastTimestamp := event.startTime } = .ok c := by
    rw [List.foldlM_cons, hb]
    exact hc
  have htime : c.lastTimestamp = lastFrameTime arith event (row :: rest) := by
    rw [hlastTime, htimeb, lastFrameTime, List.getLast?_cons]
    cases rest.getLast? <;> rfl
  have hless : c.lastId < event.frameCount := by
    rw [hlastId, hidb]
    rw [List.getLast?_cons] at hmore
    have hlast := hmore _ rfl
    cases hrest : rest.getLast? with
    | none => simpa [hrest] using hlast
    | some last => simpa [hrest] using hlast
  have hcountc := hcounted.count
  obtain ⟨known, last, hframes, hdb, hlast⟩ := hcounted.last
  have hlong : max event.frameCount (row :: rest).length = event.frameCount := by
    rw [List.length_cons]
    push_cast
    omega
  generalize hdelta : ((event.endTime - c.lastTimestamp).tdiv
    (event.frameCount - c.lastId)).tdiv 1000 = delta
  rw [← htime] at hremaining hend hepoch
  have hmissing : 0 < event.frameCount - c.lastId := by omega
  have hfew : event.frameCount - c.lastId ≤ event.frameCount := by omega
  have hpos : 0 < delta := by
    have hle := trailing_delta_pos hmissing hfew hremaining hdelta.symm
    omega
  obtain ⟨c', tail, hc', htail, hspaced⟩ := @trailingFill_spaced running c event.endTime delta
    ((event.endTime - c.lastTimestamp).toNat + 1) hcounted.idx (by simp [hframes]) hpos hrunning
    hend.le (Nat.lt_succ_self _)
  have htrailing : trailing arith event (max event.frameCount (row :: rest).length) running c =
      .ok c' := by
    have hstart : trailingStart arith event event.frameCount c = (c, delta) := by
      rw [trailingStart, if_neg, hdelta]
      rw [hcounted.idx, hframes, List.length_append, List.length_singleton]
      omega
    rw [hlong, trailing, if_pos ⟨by omega, by omega, hless⟩, hstart]
    dsimp only
    rw [if_pos hpos, hc']
  have hk : (tail.length : ℤ) = event.frameCount - c.lastId := by
    have hwithin := hspaced.within
    have hupTo := hspaced.upTo
    exact trailing_length hmissing hfew hremaining hdelta.symm (by linarith) (by linarith)
  have hlength : (c'.frames.length : ℤ) = event.frameCount + 1 - row.frameId := by
    rw [htail, List.length_append]
    push_cast
    omega
  refine ⟨_, _, loadFrames_of_trailing hrows htrailing, by omega, by omega,
    .inr ⟨known, last, tail, delta, ?_, hpos, hdb, ?_⟩⟩
  · rw [htail, hframes, List.append_assoc]
    rfl
  · rw [hlast]
    exact hspaced

theorem recordedLength_iff
    (hids : rows.Pairwise fun r r' ↦ r.frameId < r'.frameId)
    (hunsigned : ∀ row ∈ rows, 0 ≤ row.frameId)
    (hmore : ∀ row ∈ rows.getLast?, row.frameId < event.frameCount)
    (hremaining : 1000 * event.frameCount ^ 2 ≤
      event.endTime - lastFrameTime arith event rows) :
    RecordedLength arith event rows running ↔ SpacingFits arith event rows := by
  cases hrows : rows with
  | nil =>
    rw [← hrows]
    exact recordedLength_empty hcount hduration hepoch hend hrunning hrows
  | cons row rest =>
    constructor
    · rintro ⟨frames, lastId, hload, -⟩
      change row.frameId ≤ 1
      by_contra hlate
      unfold loadFrames at hload
      rw [List.foldlM_cons, addRow_outOfRange rfl rfl (by omega)] at hload
      contradiction
    · intro hfirst
      rw [← hrows]
      exact recordedLength_rows hduration hepoch hend hrunning hrows hids hunsigned hmore
        hremaining hfirst

end Load

/-- Ten seconds with a hundred frames and no rows: one frame a second. -/
theorem not_recordedLength :
    ¬RecordedLength ⟨fun x ↦ ⌊x * 1000000⌋, fun x ↦ ⌊x⌋⟩ ⟨100, 5000000000, 15000000000, 10000000⟩
      [] [] := by
  rw [recordedLength_empty (by decide) (by decide) (by decide) (by decide) (by simp) rfl]
  have hfloor : ⌊(10 ^ 18 * ((100 : ℤ) : ℚ) / ((10000000 : ℤ) : ℚ) ^ 2 : ℚ)⌋ = 1000000 := by
    norm_num
  unfold SpacingFits
  dsimp only
  rw [hfloor]
  decide

/-- Two rows, and six frames behind them. -/
theorem recordedLength_tail :
    RecordedLength ⟨fun x ↦ ⌊x * 1000000⌋, fun x ↦ ⌊x⌋⟩ ⟨8, 5000000000, 15000000000, 10000000⟩
      [⟨1, 0⟩, ⟨2, 1⟩] [] := by
  have hlast : lastFrameTime ⟨fun x ↦ ⌊x * 1000000⌋, fun x ↦ ⌊x⌋⟩
      ⟨8, 5000000000, 15000000000, 10000000⟩ [⟨1, 0⟩, ⟨2, 1⟩] = 6000000000 := by
    norm_num [lastFrameTime]
  apply (recordedLength_iff (by decide) (by decide) ?_ ?_ (by simp) (by decide) (by decide)
    (by simp) ?_).mpr
  · change (1 : ℤ) ≤ 1
    decide
  all_goals
    rw [hlast]
    decide

end ZoneMinder.EventStream
