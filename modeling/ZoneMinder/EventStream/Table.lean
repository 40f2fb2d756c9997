import Mathlib.Data.Int.ConditionallyCompleteOrder
import Mathlib.Tactic.FieldSimp
import Mathlib.Tactic.Linarith
import ZoneMinder.EventStream.Frames

namespace ZoneMinder.EventStream

/-- Frame `i` is at index `i - 1`, and time never goes back. -/
structure Table (startTime : ℤ) (frames : List FrameData) : Prop where
  id : ∀ i (h : i < frames.length), frames[i].id = i + 1
  timestamp : ∀ frame ∈ frames, frame.timestamp = startTime + 1000 * frame.offset
  offsets : frames.Pairwise fun f g ↦ f.offset ≤ g.offset
  timestamps : frames.Pairwise fun f g ↦ f.timestamp ≤ g.timestamp

inductive Aligned (startTime : ℤ) : List FrameData → ℤ → Prop
  | nil : Aligned startTime [] 0
  | snoc {frames : List FrameData} {offset : ℤ} {frame : FrameData} :
      Aligned startTime frames offset → frame.id = frames.length + 1 →
      frame.timestamp = startTime + 1000 * frame.offset → offset ≤ frame.offset →
      Aligned startTime (frames ++ [frame]) frame.offset

variable {arith : Arith} {event : EventRow} {rows : List Row} {row : Row} {running : List Bool}
  {frames : List FrameData} {frame : FrameData} {c : Fill}
  {startTime endTime delta offset i : ℤ} {n fuel : ℕ}

namespace Aligned

theorem offset_le (h : Aligned startTime frames offset) :
    ∀ frame ∈ frames, frame.offset ≤ offset := by
  induction h with
  | nil => exact nofun
  | snoc h hid htime hle ih =>
    intro f hf
    rcases List.mem_append.mp hf with hold | hnew
    · exact (ih f hold).trans hle
    · rw [List.mem_singleton.mp hnew]

theorem offset_nil (h : Aligned startTime [] offset) : offset = 0 := by
  generalize hframes : ([] : List FrameData) = frames at h
  cases h with
  | nil => rfl
  | snoc => exact absurd hframes.symm (List.append_ne_nil_of_right_ne_nil _ nofun)

theorem table (h : Aligned startTime frames offset) : Table startTime frames := by
  induction h with
  | nil => exact ⟨nofun, nofun, .nil, .nil⟩
  | @snoc frames offset frame h hid htime hle ih =>
    have hoffsets : ∀ f ∈ frames, f.offset ≤ frame.offset :=
      fun f hf ↦ (h.offset_le f hf).trans hle
    constructor
    · intro i hi
      rw [List.length_append, List.length_singleton] at hi
      rcases (Nat.lt_succ_iff_lt_or_eq.mp hi) with hlt | rfl
      · rw [List.getElem_append_left hlt]
        exact ih.id i hlt
      · rw [List.getElem_concat_length rfl]
        exact hid
    · intro f hf
      rcases List.mem_append.mp hf with hold | hnew
      · exact ih.timestamp f hold
      · rw [List.mem_singleton.mp hnew]
        exact htime
    · refine List.pairwise_append.mpr ⟨ih.offsets, List.pairwise_singleton _ _, ?_⟩
      intro f hf g hg
      rw [List.mem_singleton.mp hg]
      exact hoffsets f hf
    · refine List.pairwise_append.mpr ⟨ih.timestamps, List.pairwise_singleton _ _, ?_⟩
      intro f hf g hg
      have := hoffsets f hf
      rw [List.mem_singleton.mp hg, ih.timestamp f hf, htime]
      omega

theorem frameAt_last (h : Aligned startTime frames offset) (hne : frames ≠ []) :
    ∃ frame, frameAt frames (frames.length - 1) = .ok frame ∧ frame.offset = offset ∧
      frame.timestamp = startTime + 1000 * offset := by
  cases h with
  | nil => exact absurd rfl hne
  | @snoc frames offset frame h hid htime hle =>
    refine ⟨frame, ?_, rfl, htime⟩
    have hlast : (((frames ++ [frame]).length : ℤ) - 1) = frames.length := by
      rw [List.length_append, List.length_singleton]
      push_cast
      omega
    rw [frameAt, hlast, if_neg (by omega), Int.toNat_natCast, List.getElem?_concat_length]

end Aligned

structure Fill.At (startTime : ℤ) (c : Fill) (offset : ℤ) : Prop where
  aligned : Aligned startTime c.frames offset
  idx : c.lastFrameIdx = c.frames.length - 1

theorem Fill.emplaceBack_length (c : Fill) (frame : FrameData) :
    (c.emplaceBack frame).frames.length = c.frames.length + 1 := List.length_append

theorem Fill.emplaceBack_ne_nil (c : Fill) (frame : FrameData) : (c.emplaceBack frame).frames ≠ [] :=
  List.append_ne_nil_of_right_ne_nil _ nofun

theorem Fill.At.emplaceBack (h : c.At startTime offset) (hid : frame.id = c.frames.length + 1)
    (htime : frame.timestamp = startTime + 1000 * frame.offset) (hle : offset ≤ frame.offset) :
    (c.emplaceBack frame).At startTime frame.offset where
  aligned := h.aligned.snoc hid htime hle
  idx := by
    rw [c.emplaceBack_length, Nat.cast_succ, add_sub_cancel_right]
    rfl

theorem Fill.At.frameAt (h : c.At startTime offset) (hne : c.frames ≠ []) :
    ∃ frame, EventStream.frameAt c.frames c.lastFrameIdx = .ok frame ∧ frame.offset = offset ∧
      frame.timestamp = startTime + 1000 * offset := by
  rw [h.idx]
  exact h.aligned.frameAt_last hne

theorem bulkFill_at (h : c.At startTime offset) (hne : c.frames ≠ []) (hdelta : 0 ≤ delta)
    (hi : i = c.frames.length + 1)
    (htime : c.lastTimestamp = startTime + 1000 * (offset - (i - 1 - c.lastId) * delta)) :
    ∃ c', bulkFill startTime delta c i n = .ok c' ∧ c'.At startTime (offset + n * delta) ∧
      c'.frames.length = c.frames.length + n := by
  induction n generalizing c i offset with
  | zero => exact ⟨c, rfl, by simpa using h, rfl⟩
  | succ n ih =>
    obtain ⟨prev, hprev, -, hprevTime⟩ := h.frameAt hne
    generalize hframe : FrameData.mk i (c.lastTimestamp + 1000 * ((i - c.lastId) * delta))
      ((prev.timestamp - startTime + 1000 * delta).tdiv 1000) delta false = frame
    have hoffset : frame.offset = offset + delta := by
      have hexact : prev.timestamp - startTime + 1000 * delta = (offset + delta) * 1000 := by
        rw [hprevTime]
        ring
      rw [← hframe, hexact]
      exact Int.mul_tdiv_cancel _ (by decide)
    have hstamp : frame.timestamp = startTime + 1000 * frame.offset := by
      rw [hoffset, ← hframe, htime]
      ring
    have hnext : (c.emplaceBack frame).At startTime frame.offset :=
      h.emplaceBack (by rw [← hframe]; exact hi) hstamp (by omega)
    have hlength := c.emplaceBack_length frame
    have hlater : (c.emplaceBack frame).lastTimestamp = startTime + 1000 *
        (frame.offset - (i + 1 - 1 - (c.emplaceBack frame).lastId) * delta) := by
      rw [hoffset]
      change c.lastTimestamp = startTime + 1000 * (offset + delta - (i + 1 - 1 - c.lastId) * delta)
      rw [htime]
      ring
    obtain ⟨c', hc', hat, hlen⟩ := ih hnext (c.emplaceBack_ne_nil frame)
      (by rw [hlength]; push_cast; omega) hlater
    refine ⟨c', ?_, ?_, by omega⟩
    · rw [bulkFill, bulkFrame, hprev]
      rw [← hframe] at hc'
      exact hc'
    · rw [hoffset] at hat
      push_cast
      convert hat using 1
      ring

structure Fill.Sound (startTime : ℤ) (c : Fill) : Prop where
  at' : c.At startTime c.lastOffset
  id : c.lastId = c.frames.length
  time : c.lastTimestamp = startTime + 1000 * c.lastOffset

/-- A row behind what has been filled, and the first one has the first frame. -/
structure Follows (arith : Arith) (c : Fill) (row : Row) : Prop where
  id : c.lastId < row.frameId
  offset : c.lastOffset ≤ arith.micros row.delta
  first : c.frames = [] → row.frameId = 1

/-- The frames in front of a row leave its id to be the next one, at an offset of at most the
row's. -/
theorem fillGap_at (h : c.Sound startTime) (hrow : Follows arith c row) (hdelta : 0 ≤ delta)
    (hwithin : (row.frameId - c.lastId) * delta ≤ arith.micros row.delta - c.lastOffset) :
    ∃ c' offset, fillGap startTime delta c row.frameId = .ok c' ∧ c'.At startTime offset ∧
      offset ≤ arith.micros row.delta ∧ row.frameId = c'.frames.length + 1 := by
  obtain ⟨hid, hoffset, hfirst⟩ := hrow
  have hcount := h.id
  rw [fillGap]
  split
  · next hmany =>
    have hne : c.frames ≠ [] := by
      intro hnil
      have hone := hfirst hnil
      rw [hcount, hnil, List.length_nil] at hmany
      omega
    obtain ⟨c', hc', hat, hlength⟩ := @bulkFill_at c startTime delta c.lastOffset (c.lastId + 1)
      (row.frameId - (c.lastId + 1)).toNat h.at' hne hdelta (by rw [hcount]) (by rw [h.time]; ring)
    refine ⟨c', _, hc', hat, ?_, by omega⟩
    rw [Int.toNat_of_nonneg (by omega)]
    nlinarith
  · next hone => exact ⟨c, _, rfl, h.at', hoffset, by omega⟩

theorem addRow_sound (h : c.Sound startTime) (hrow : Follows arith c row) :
    ∃ c', addRow startTime arith c row = .ok c' ∧ c'.Sound startTime ∧
      c'.lastId = row.frameId ∧ c'.lastOffset = arith.micros row.delta := by
  have hid := hrow.id
  have hoffset := hrow.offset
  generalize hdelta : (arith.micros row.delta - c.lastOffset).tdiv (row.frameId - c.lastId) = delta
  have hnonneg : 0 ≤ delta := by
    rw [← hdelta]
    exact Int.tdiv_nonneg (by omega) (by omega)
  have hwithin : (row.frameId - c.lastId) * delta ≤ arith.micros row.delta - c.lastOffset := by
    rw [← hdelta]
    exact Int.mul_tdiv_self_le (by omega)
  obtain ⟨b, offset, hb, hat, hle, hnext⟩ := fillGap_at h hrow hnonneg hwithin
  have hframe : (b.emplaceBack ⟨row.frameId, startTime + 1000 * arith.micros row.delta,
      arith.micros row.delta, delta, true⟩).At startTime (arith.micros row.delta) :=
    hat.emplaceBack hnext rfl hle
  refine ⟨{ b.emplaceBack ⟨row.frameId, startTime + 1000 * arith.micros row.delta,
      arith.micros row.delta, delta, true⟩ with
    lastId := row.frameId
    lastOffset := arith.micros row.delta
    lastTimestamp := startTime + 1000 * arith.micros row.delta }, ?_, ?_, rfl, rfl⟩
  · have hpos : row.frameId - c.lastId ≠ 0 := by omega
    unfold addRow
    simp only [if_pos hpos, hdelta, hb]
    rfl
  · refine ⟨⟨hframe.aligned, hframe.idx⟩, ?_, rfl⟩
    dsimp only
    rw [b.emplaceBack_length, hnext]
    rfl

theorem addRows_sound (h : c.Sound startTime) (hmicros : Monotone arith.micros)
    (hids : rows.Pairwise fun r r' ↦ r.frameId < r'.frameId)
    (hdeltas : rows.Pairwise fun r r' ↦ r.delta ≤ r'.delta)
    (hfollows : ∀ row, rows.head? = some row → Follows arith c row) :
    ∃ c', rows.foldlM (addRow startTime arith) c = .ok c' ∧ c'.Sound startTime := by
  induction rows generalizing c with
  | nil => exact ⟨c, rfl, h⟩
  | cons row rows ih =>
    obtain ⟨hid, hids⟩ := List.pairwise_cons.mp hids
    obtain ⟨hdelta, hdeltas⟩ := List.pairwise_cons.mp hdeltas
    obtain ⟨c', hc', hsound, hlastId, hlastOffset⟩ := addRow_sound h (hfollows row rfl)
    rw [List.foldlM_cons, hc']
    refine ih hsound hids hdeltas fun row' hrow' ↦ ?_
    have hmem := List.mem_of_mem_head? hrow'
    refine ⟨by rw [hlastId]; exact hid row' hmem, ?_, fun hnil ↦ ?_⟩
    · rw [hlastOffset]
      exact hmicros (hdelta row' hmem)
    · have hlength := hsound.id
      have hcount := h.id
      have hrow := (hfollows row rfl).id
      rw [hnil, List.length_nil, hlastId] at hlength
      omega

/-- The loop behind the last row ends, at a gap of at least a microsecond a frame. -/
theorem trailingFill_at (h : c.At startTime offset) (hne : c.frames ≠ [])
    (hid : c.lastId = c.frames.length) (htime : c.lastTimestamp = startTime + 1000 * offset)
    (hdelta : 0 < delta) (hfuel : (endTime - c.lastTimestamp).toNat < fuel) :
    ∃ c' offset', trailingFill delta endTime c running fuel = .ok c' ∧
      Aligned startTime c'.frames offset' := by
  induction fuel generalizing c offset running with
  | zero => omega
  | succ fuel ih =>
    unfold trailingFill
    split
    · next hgoes =>
      dsimp only
      split
      · exact ⟨_, offset, rfl, h.aligned⟩
      · next hfits =>
        obtain ⟨prev, hprev, hprevOffset, -⟩ := h.frameAt hne
        generalize hframe : FrameData.mk (c.lastId + 1) (c.lastTimestamp + 1000 * delta)
          (prev.offset + delta) delta false = frame
        have hoffset : frame.offset = offset + delta := by rw [← hframe, ← hprevOffset]
        have hstamp : frame.timestamp = startTime + 1000 * frame.offset := by
          rw [hoffset, ← hframe, htime]
          ring
        have hnext : (c.emplaceBack frame).At startTime frame.offset := by
          refine h.emplaceBack ?_ hstamp (by omega)
          rw [← hframe, hid]
        have hlength : c.lastId + 1 = (c.emplaceBack frame).frames.length := by
          rw [c.emplaceBack_length, hid]
          rfl
        have hlater : endTime > c.lastTimestamp :=
          of_decide_eq_true ((Bool.and_eq_true _ _).mp hgoes).1
        obtain ⟨c', offset', hc', haligned⟩ := ih
          (c := { c.emplaceBack frame with
            lastId := c.lastId + 1
            lastTimestamp := c.lastTimestamp + 1000 * delta })
          ⟨hnext.aligned, hnext.idx⟩ (c.emplaceBack_ne_nil frame) hlength
          (by rw [← hstamp, ← hframe]) (by dsimp only; omega)
        refine ⟨c', offset', ?_, haligned⟩
        rw [hprev, ← hc', ← hframe]
        rfl
    · exact ⟨c, offset, rfl, h.aligned⟩

theorem trailingStart_at (h : c.Sound event.startTime) (frameCount : ℤ) :
    let t := (trailingStart arith event frameCount c).1
    ∃ offset, t.At event.startTime offset ∧ t.frames ≠ [] ∧ t.lastId = t.frames.length ∧
      t.lastTimestamp = event.startTime + 1000 * offset := by
  unfold trailingStart
  split
  · next hempty =>
    have hnil : c.frames = [] := by
      rw [h.at'.idx] at hempty
      exact List.length_eq_zero_iff.mp (by omega)
    have hzero : c.lastOffset = 0 := by
      have haligned := h.at'.aligned
      rw [hnil] at haligned
      exact haligned.offset_nil
    have hframe : (c.emplaceBack ⟨1, event.startTime, 0, 0, false⟩).At event.startTime 0 :=
      h.at'.emplaceBack (by rw [hnil]; rfl) (by simp) hzero.le
    refine ⟨0, ⟨hframe.aligned, hframe.idx⟩, c.emplaceBack_ne_nil _, ?_, ?_⟩
    · simp only [Fill.emplaceBack, h.id, hnil, List.nil_append]
      rfl
    · simp
  · next hsome =>
    refine ⟨c.lastOffset, h.at', fun hnil ↦ hsome ?_, h.id, h.time⟩
    rw [h.at'.idx, hnil]
    decide

theorem trailing_aligned (h : c.Sound event.startTime) (frameCount : ℤ) :
    ∃ c' offset', trailing arith event frameCount running c = .ok c' ∧
      Aligned event.startTime c'.frames offset' := by
  unfold trailing
  split
  · obtain ⟨offset, hat, hne, hid, htime⟩ := @trailingStart_at arith _ _ h frameCount
    dsimp only
    split
    · next hdelta => exact trailingFill_at hat hne hid htime hdelta (Nat.lt_succ_self _)
    · exact ⟨_, offset, rfl, hat.aligned⟩
  · exact ⟨c, c.lastOffset, rfl, h.at'.aligned⟩

theorem sound_init (startTime : ℤ) : Fill.Sound startTime { lastTimestamp := startTime } :=
  ⟨⟨.nil, rfl⟩, rfl, by simp⟩

theorem bulkFill_extends {c' : Fill} (h : bulkFill startTime delta c i n = .ok c') :
    c.frames <+: c'.frames := by
  induction n generalizing c i with
  | zero =>
    cases h
    exact List.prefix_refl _
  | succ n ih =>
    rw [bulkFill, bulkFrame] at h
    cases hprev : frameAt c.frames c.lastFrameIdx with
    | error fault =>
      rw [hprev] at h
      contradiction
    | ok prev =>
      rw [hprev] at h
      exact (List.prefix_append _ _).trans (ih h)

theorem fillGap_extends {c' : Fill} (h : fillGap startTime delta c i = .ok c') :
    c.frames <+: c'.frames := by
  rw [fillGap] at h
  split at h
  · exact bulkFill_extends h
  · cases h
    exact List.prefix_refl _

theorem addRow_append {c' : Fill} (h : addRow startTime arith c row = .ok c') :
    ∃ before frame, c.frames <+: before ∧ c'.frames = before ++ [frame] ∧
      frame.id = row.frameId ∧ frame.offset = arith.micros row.delta ∧ frame.inDb = true := by
  unfold addRow at h
  dsimp only at h
  generalize (if row.frameId - c.lastId ≠ 0 then _ else _ : ℤ) = delta at h
  cases hgap : fillGap startTime delta c row.frameId with
  | error fault =>
    rw [hgap] at h
    contradiction
  | ok b =>
    rw [hgap] at h
    cases h
    exact ⟨b.frames, _, fillGap_extends hgap, rfl, rfl, rfl, rfl⟩

theorem addRows_mem {c' : Fill} (h : rows.foldlM (addRow startTime arith) c = .ok c') :
    c.frames <+: c'.frames ∧ ∀ row ∈ rows, ∃ frame ∈ c'.frames,
      frame.id = row.frameId ∧ frame.offset = arith.micros row.delta ∧ frame.inDb = true := by
  induction rows generalizing c with
  | nil =>
    cases h
    exact ⟨List.prefix_refl _, List.forall_mem_nil _⟩
  | cons row rows ih =>
    rw [List.foldlM_cons] at h
    cases hrow : addRow startTime arith c row with
    | error fault =>
      rw [hrow] at h
      contradiction
    | ok b =>
      rw [hrow] at h
      obtain ⟨before, frame, hbefore, happend, hframe⟩ := addRow_append hrow
      obtain ⟨hfront, hrows⟩ := ih h
      have hb : before <+: b.frames := happend ▸ List.prefix_append _ _
      refine ⟨(hbefore.trans hb).trans hfront, List.forall_mem_cons.mpr ⟨?_, hrows⟩⟩
      exact ⟨frame, hfront.subset (happend ▸ List.mem_concat_self), hframe⟩

theorem trailingFill_extends {c' : Fill}
    (h : trailingFill delta endTime c running fuel = .ok c') : c.frames <+: c'.frames := by
  induction fuel generalizing c running with
  | zero => contradiction
  | succ fuel ih =>
    unfold trailingFill at h
    split at h
    · dsimp only at h
      split at h
      · cases h
        exact List.prefix_refl _
      · cases hprev : frameAt c.frames c.lastFrameIdx with
        | error fault =>
          rw [hprev] at h
          contradiction
        | ok prev =>
          rw [hprev] at h
          exact (List.prefix_append _ _).trans (ih h)
    · cases h
      exact List.prefix_refl _

theorem trailing_extends {c' : Fill} {frameCount : ℤ}
    (h : trailing arith event frameCount running c = .ok c') : c.frames <+: c'.frames := by
  unfold trailing at h
  split at h
  · have hstart : c.frames <+: (trailingStart arith event frameCount c).1.frames := by
      unfold trailingStart
      split
      · exact List.prefix_append _ _
      · exact List.prefix_refl _
    dsimp only at h
    split at h
    · exact hstart.trans (trailingFill_extends h)
    · cases h
      exact hstart
  · cases h
    exact List.prefix_refl _

/-- Whatever the rows are, each has its frame in the table that is loaded. -/
theorem loadFrames_mem {lastId : ℤ}
    (h : loadFrames arith event rows running = .ok (frames, lastId)) :
    ∀ row ∈ rows, ∃ frame ∈ frames,
      frame.id = row.frameId ∧ frame.offset = arith.micros row.delta ∧ frame.inDb = true := by
  unfold loadFrames at h
  dsimp only at h
  cases hrows : rows.foldlM (addRow event.startTime arith) { lastTimestamp := event.startTime } with
  | error fault =>
    rw [hrows] at h
    contradiction
  | ok c =>
    rw [hrows] at h
    change (trailing arith event _ running c >>= fun c ↦ pure (c.frames, c.lastId)) = _ at h
    cases htrailing : trailing arith event (max event.frameCount rows.length) running c with
    | error fault =>
      rw [htrailing] at h
      contradiction
    | ok c' =>
      rw [htrailing] at h
      cases h
      intro row hrow
      obtain ⟨frame, hframe, hrest⟩ := (addRows_mem hrows).2 row hrow
      exact ⟨frame, (trailing_extends htrailing).subset hframe, hrest⟩

theorem Table.getElem? (h : Table startTime frames) (hframe : frame ∈ frames) :
    frames[(frame.id - 1).toNat]? = some frame := by
  obtain ⟨i, hi, rfl⟩ := List.mem_iff_getElem.mp hframe
  have hindex : (frames[i].id - 1).toNat = i := by
    rw [h.id i hi]
    omega
  rw [hindex, List.getElem?_eq_getElem hi]

/-- A first row behind the first frame reads the frame before the table. -/
theorem addRow_outOfRange (hidx : c.lastFrameIdx = -1) (hid : c.lastId = 0)
    (hrow : 1 < row.frameId) : addRow startTime arith c row = .error .outOfRange := by
  obtain ⟨n, hn⟩ : ∃ n, (row.frameId - (c.lastId + 1)).toNat = n + 1 :=
    Nat.exists_eq_add_one.mpr (by omega)
  have hbulk (delta i : ℤ) : bulkFill startTime delta c i (n + 1) = .error .outOfRange := by
    rw [bulkFill, bulkFrame, hidx]
    rfl
  unfold addRow
  simp only [fillGap, hn, hbulk]
  rw [if_pos (by omega)]
  rfl

/-- The frames are filled in without a fault and in order exactly if the first row, where
there is one, has the first frame. -/
theorem frames_filled_iff (hmicros : Monotone arith.micros) (hzero : arith.micros 0 = 0)
    (hids : rows.Pairwise fun r r' ↦ r.frameId < r'.frameId)
    (hdeltas : rows.Pairwise fun r r' ↦ r.delta ≤ r'.delta)
    (hfirst : ∀ row ∈ rows, 1 ≤ row.frameId) (hnonneg : ∀ row ∈ rows, 0 ≤ row.delta) :
    (∃ frames lastId, loadFrames arith event rows running = .ok (frames, lastId) ∧
        Table event.startTime frames) ↔
      ∀ row, rows.head? = some row → row.frameId = 1 := by
  constructor
  · rintro ⟨frames, lastId, hload, -⟩ row hrow
    obtain ⟨rest, rfl⟩ := List.head?_eq_some_iff.mp hrow
    have hone := hfirst row List.mem_cons_self
    by_contra hlate
    unfold loadFrames at hload
    rw [List.foldlM_cons, addRow_outOfRange rfl rfl (by omega)] at hload
    contradiction
  · intro hhead
    have hfollows : ∀ row, rows.head? = some row →
        Follows arith { lastTimestamp := event.startTime } row := by
      intro row hrow
      have hmem := List.mem_of_mem_head? hrow
      refine ⟨hfirst row hmem, ?_, fun _ ↦ hhead row hrow⟩
      rw [← hzero]
      exact hmicros (hnonneg row hmem)
    obtain ⟨c, hc, hsound⟩ := addRows_sound (sound_init event.startTime) hmicros hids hdeltas hfollows
    obtain ⟨c', offset', hc', haligned⟩ := @trailing_aligned arith event running c hsound
      (max event.frameCount rows.length)
    refine ⟨c'.frames, c'.lastId, ?_, haligned.table⟩
    unfold loadFrames
    rw [hc]
    change (trailing arith event (max event.frameCount rows.length) running c >>= fun c ↦
      pure (c.frames, c.lastId)) = _
    rw [hc']
    rfl

/-- Three rows with a gap, and frames behind them up to the end of the event. -/
theorem frames_filled_gap :
    let arith : Arith := ⟨fun x ↦ ⌊x * 1000000⌋, fun x ↦ ⌊x⌋⟩
    let event : EventRow := ⟨6, 5000000000, 6500000000, 1500000⟩
    ∃ frames lastId, loadFrames arith event [⟨1, 0⟩, ⟨2, 1 / 4⟩, ⟨4, 3 / 4⟩] [] =
      .ok (frames, lastId) ∧ Table event.startTime frames := by
  intro arith event
  have hmicros : Monotone arith.micros := by
    intro x y hxy
    exact Int.floor_le_floor (mul_le_mul_of_nonneg_right hxy (by norm_num))
  have hzero : arith.micros 0 = 0 := by simp [arith]
  have hdeltas : [Row.mk 1 0, ⟨2, 1 / 4⟩, ⟨4, 3 / 4⟩].Pairwise fun r r' ↦ r.delta ≤ r'.delta := by
    norm_num
  have hnonneg : ∀ row ∈ [Row.mk 1 0, ⟨2, 1 / 4⟩, ⟨4, 3 / 4⟩], 0 ≤ row.delta := by
    norm_num
  refine (frames_filled_iff hmicros hzero (by decide) hdeltas (by decide) hnonneg).mpr ?_
  intro row hrow
  rw [← Option.some.inj hrow]

theorem first_row_outOfRange :
    loadFrames ⟨fun x ↦ ⌊x * 1000000⌋, fun x ↦ ⌊x⌋⟩ ⟨2, 5000000000, 6000000000, 1000000⟩
      [⟨2, 0⟩] [] = .error .outOfRange := by
  unfold loadFrames
  rw [List.foldlM_cons, addRow_outOfRange rfl rfl (by decide)]
  rfl

end ZoneMinder.EventStream
