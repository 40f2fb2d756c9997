import ZoneMinder.Recorder.AddFrame
import Mathlib.Algebra.Order.BigOperators.Group.List

namespace ZoneMinder.Recorder

open Lib

/-- A packet that counts as a frame, with what was read of the monitor. -/
structure Taken where
  packet : ZMPacket
  reading : Reading

namespace Taken

def score (t : Taken) : ℤ := max t.packet.score 0

def alarmed (t : Taken) : Bool := 0 < t.packet.score

theorem score_nonneg (t : Taken) : 0 ≤ t.score := le_max_right _ _

end Taken

def Op.taken? : Op → Option Taken
  | .addPacket packet reading =>
    if (packet.video || packet.image) && packet.timestamp ≠ 0 then some ⟨packet, reading⟩ else none
  | _ => none

/-- The frames of a recording: frame `n` is the one with index `n - 1`. -/
def taken (ops : List Op) : List Taken := ops.filterMap Op.taken?

def loudest (ts : List Taken) : ℤ := (ts.map Taken.score).foldr max 0

/-- The first of the frames with the highest score. -/
def loudestFrame (ts : List Taken) : ℕ :=
  (ts.findIdx? fun t ↦ t.score = loudest ts).elim 0 (· + 1)

def totalsOf (ts : List Taken) : Totals where
  frames := ts.length
  alarmFrames := ts.countP Taken.alarmed
  totScore := (ts.map Taken.score).sum
  avgScore := (ts.map Taken.score).sum / ts.countP Taken.alarmed
  maxScore := loudest ts
  maxScoreFrameId := loudestFrame ts

section

variable (c : Settings) (before : List Taken) (t : Taken)

/-- A frame has a row of its own if it is a bulk or an alarm frame, if it is louder than all
before it, and while there is an alarm or was one. -/
def HasRow : Prop :=
  frameType c t.reading.state (before.length + 1) t.packet.score ≠ .normal ∨
  (∀ u ∈ before, u.score < t.score) ∨ t.reading.state ∈ [.prealarm, .alarm, .alert]

instance : Decidable (HasRow c before t) := inferInstanceAs (Decidable (_ ∨ _ ∨ _))

def rowOf : Frame where
  frameId := before.length + 1
  type := frameType c t.reading.state (before.length + 1) t.packet.score
  timestamp := t.packet.timestamp
  delta := (t.packet.timestamp - c.startTime).tdiv 1000
  score := t.score
  audioLevel := t.reading.audioPeak
  zoneStats := t.packet.zoneStats

end

/-- The rows of the frames that follow others. -/
def rowsFrom (c : Settings) (before : List Taken) : List Taken → List Frame
  | [] => []
  | t :: later =>
    (if HasRow c before t then [rowOf c before t] else []) ++ rowsFrom c (before ++ [t]) later

def rows (c : Settings) (ts : List Taken) : List Frame := rowsFrom c [] ts

variable {c : Settings} {ts before later : List Taken} {t u : Taken} {e e' : Event}

theorem rowsFrom_append :
    rowsFrom c before (ts ++ later) = rowsFrom c before ts ++ rowsFrom c (before ++ ts) later := by
  induction ts generalizing before with
  | nil => rw [List.nil_append, List.append_nil, rowsFrom, List.nil_append]
  | cons t ts ih =>
    rw [List.cons_append, rowsFrom, rowsFrom, ih, List.append_assoc, List.append_assoc]
    rfl

theorem rows_append : rows c (ts ++ later) = rows c ts ++ rowsFrom c ts later := rowsFrom_append

theorem rows_concat :
    rows c (ts ++ [t]) = rows c ts ++ if HasRow c ts t then [rowOf c ts t] else [] := by
  rw [rows_append, rowsFrom, rowsFrom, List.append_nil]

theorem loudest_concat : loudest (ts ++ [t]) = max (loudest ts) t.score := by
  induction ts with
  | nil => exact max_comm _ _
  | cons u ts ih =>
    have hcons (l : List Taken) : loudest (u :: l) = max u.score (loudest l) := rfl
    rw [List.cons_append, hcons, hcons, ih, max_assoc]

theorem loudest_nonneg : 0 ≤ loudest ts := by
  induction ts with
  | nil => exact le_rfl
  | cons t ts ih => exact ih.trans (le_max_right _ _)

theorem le_loudest (ht : t ∈ ts) : t.score ≤ loudest ts := by
  induction ts with
  | nil => contradiction
  | cons u ts ih =>
    rcases List.mem_cons.mp ht with rfl | ht
    · exact le_max_left _ _
    · exact (ih ht).trans (le_max_right _ _)

/-- The highest score is that of a frame, unless there is none. -/
theorem exists_loudest (hne : ts ≠ []) : ∃ t ∈ ts, t.score = loudest ts := by
  induction ts using List.reverseRecOn with
  | nil => contradiction
  | append_singleton ts t ih =>
    rw [loudest_concat]
    rcases le_total (loudest ts) t.score with hle | hle
    · exact ⟨t, List.mem_append_right _ List.mem_cons_self, (max_eq_right hle).symm⟩
    · by_cases hts : ts = []
      · subst hts
        exact ⟨t, List.mem_cons_self, (max_eq_right t.score_nonneg).symm⟩
      · obtain ⟨u, hu, hscore⟩ := ih hts
        exact ⟨u, List.mem_append_left _ hu, hscore.trans (max_eq_left hle).symm⟩

theorem lt_of_loudest_lt (h : loudest ts < t.score) : ∀ u ∈ ts, u.score < t.score :=
  fun _ hu ↦ (le_loudest hu).trans_lt h

theorem loudestFrame_concat_louder (h : ∀ u ∈ ts, u.score < t.score) :
    loudestFrame (ts ++ [t]) = ts.length + 1 := by
  have hmax : loudest (ts ++ [t]) = t.score := by
    rw [loudest_concat, max_eq_right]
    by_cases hts : ts = []
    · subst hts
      exact t.score_nonneg
    · obtain ⟨u, hu, hscore⟩ := exists_loudest hts
      exact hscore ▸ (h u hu).le
  have hnone : ts.findIdx? (fun u ↦ u.score = t.score) = none := by
    rw [List.findIdx?_eq_none_iff]
    intro u hu
    exact decide_eq_false (h u hu).ne
  rw [loudestFrame, hmax, List.findIdx?_append, hnone]
  simp

theorem loudestFrame_concat_quieter (hu : u ∈ ts) (h : t.score ≤ u.score) :
    loudestFrame (ts ++ [t]) = loudestFrame ts := by
  have hmax : loudest (ts ++ [t]) = loudest ts := by
    rw [loudest_concat, max_eq_left (h.trans (le_loudest hu))]
  obtain ⟨v, hv, hscore⟩ := exists_loudest (List.ne_nil_of_mem hu)
  obtain ⟨i, hi⟩ : ∃ i, ts.findIdx? (fun u ↦ u.score = loudest ts) = some i := by
    apply Option.isSome_iff_exists.mp
    rw [List.findIdx?_isSome, List.any_eq_true]
    exact ⟨v, hv, decide_eq_true hscore⟩
  rw [loudestFrame, loudestFrame, hmax, List.findIdx?_append, hi]
  rfl

/-- What an event knows of the frames it has counted. -/
structure Follows (ts : List Taken) (e : Event) : Prop where
  frames : e.frames = ts.length
  alarmFrames : e.alarmFrames = ts.countP Taken.alarmed
  totScore : e.totScore = (ts.map Taken.score).sum
  maxScore : e.maxScore = if ts = [] then -1 else loudest ts
  maxScoreFrameId : e.maxScoreFrameId = loudestFrame ts
  snapshot : e.snapshotFileWritten = ts.any fun t ↦ t.packet.image
  alarm : e.alarmFrameWritten = ts.any fun t ↦ t.packet.image && t.alarmed

namespace Follows

theorem totScore_nonneg (h : Follows ts e) : 0 ≤ e.totScore := by
  rw [h.totScore]
  apply List.sum_nonneg
  intro score hscore
  obtain ⟨t, -, rfl⟩ := List.mem_map.mp hscore
  exact t.score_nonneg

theorem avgScore (h : Follows ts e) : e.totals.avgScore = (totalsOf ts).avgScore := by
  have htot := h.totScore_nonneg
  rw [h.totScore] at htot
  unfold Event.totals totalsOf
  simp only [h.alarmFrames, h.totScore]
  split
  · exact Int.tdiv_eq_ediv_of_nonneg htot
  · next hnone =>
    rw [not_not.mp hnone]
    exact (Int.ediv_zero _).symm

/-- The columns that are written to the row of the event. -/
theorem forDb (h : Follows ts e) :
    { e.totals with maxScore := eventMaxScoreForDb e.maxScore } = totalsOf ts := by
  have havg := h.avgScore
  have hmax : eventMaxScoreForDb e.maxScore = loudest ts := by
    rw [h.maxScore, eventMaxScoreForDb]
    split
    · next hts =>
      subst hts
      rfl
    · exact if_neg (not_lt.mpr loudest_nonneg)
  rw [hmax]
  unfold Event.totals totalsOf at *
  simp only [Totals.mk.injEq] at *
  exact ⟨h.frames, h.alarmFrames, h.totScore, havg, trivial, h.maxScoreFrameId⟩

theorem totals (h : Follows ts e) (hne : ts ≠ []) : e.totals = totalsOf ts := by
  have hmax := h.maxScore
  rw [if_neg hne] at hmax
  have hdb : eventMaxScoreForDb e.maxScore = e.maxScore := by
    rw [eventMaxScoreForDb, hmax, if_neg (not_lt.mpr loudest_nonneg)]
  rw [← h.forDb, hdb]
  rfl

theorem louder_iff (h : Follows ts e) : t.score > e.maxScore ↔ ∀ u ∈ ts, u.score < t.score := by
  rw [h.maxScore]
  split
  · next hts =>
    subst hts
    have hscore := t.score_nonneg
    refine iff_of_true ?_ (List.forall_mem_nil _)
    omega
  · next hne =>
    constructor
    · exact lt_of_loudest_lt
    · intro hall
      obtain ⟨u, hu, hscore⟩ := exists_loudest hne
      exact hscore ▸ hall u hu

end Follows

/-- The frames whose picture went to a file. -/
def Event.pictures (file : ImageFile) (e : Event) : List ℕ :=
  e.images.filterMap fun i ↦ if i.1 = file then some i.2 else none

/-- Which files a frame is written to. -/
def Writes (c : Settings) (ts : List Taken) (t : Taken) : ImageFile → Prop
  | .capture => t.packet.image ∧ c.saveJpegs.testBit 0
  | .snapshot => t.packet.image ∧
      ((∀ u ∈ ts, u.score < t.score) ∨ ∀ u ∈ ts, u.packet.image = false)
  | .alarm => t.packet.image ∧ t.alarmed ∧ ∀ u ∈ ts, ¬(u.packet.image ∧ u.alarmed)
  | .analyse => t.packet.image ∧ c.saveJpegs.testBit 1 ∧ t.packet.analysisImage

instance (c : Settings) (ts : List Taken) (t : Taken) : DecidablePred (Writes c ts t)
  | .capture => inferInstanceAs (Decidable (_ ∧ _))
  | .snapshot => inferInstanceAs (Decidable (_ ∧ _))
  | .alarm => inferInstanceAs (Decidable (_ ∧ _))
  | .analyse => inferInstanceAs (Decidable (_ ∧ _))

def Statement.IsStats : Statement → Prop
  | .insertStats _ => True
  | _ => False

theorem writeDbFrames_eq (c : Settings) (e : Event) :
    ∃ stats : List Statement, (∀ s ∈ stats, s.IsStats) ∧
      e.writeDbFrames c = { e with
        frameData := []
        dbQueue := e.dbQueue ++ .insertFrames e.frameData :: stats } := by
  unfold Event.writeDbFrames
  generalize (if c.recordEventStats then _ else _) = stats
  cases hstats : stats.isEmpty with
  | true => exact ⟨[], nofun, by simp only [hstats, if_true]⟩
  | false =>
    refine ⟨[.insertStats stats], ?_, by simp only [hstats, Bool.false_eq_true, if_false]⟩
    intro s hs
    rw [List.mem_singleton.mp hs]
    trivial

/-- What becomes of the row of a frame. -/
inductive Adds (c : Settings) (ts : List Taken) (t : Taken) (e e' : Event) : Prop
  | skipped : ¬HasRow c ts t → e'.frameData = e.frameData → e'.dbQueue = e.dbQueue →
      e'.lastDbFrame = e.lastDbFrame → Adds c ts t e e'
  | waits : HasRow c ts t → ¬Writes c ts t .snapshot → ¬Writes c ts t .alarm →
      e'.frameData = e.frameData ++ [rowOf c ts t] → e'.frameData.length < maxDbFrames →
      e'.dbQueue = e.dbQueue → e'.lastDbFrame = e.lastDbFrame → Adds c ts t e e'
  | flushed (stats : List Statement) : HasRow c ts t → (∀ s ∈ stats, s.IsStats) →
      e'.frameData = [] → e'.lastDbFrame = ts.length + 1 →
      e'.dbQueue = e.dbQueue ++ .insertFrames (e.frameData ++ [rowOf c ts t]) ::
        (stats ++ [.updateEvent (rowOf c ts t).delta (totalsOf (ts ++ [t]))]) →
      Adds c ts t e e'

variable {reading : Reading} {packet : ZMPacket}

theorem pushFrame_adds {type : FrameType} {score : ℤ} {writeToDb : Bool}
    (h : Follows (ts ++ [t]) e) (hrow : HasRow c ts t) (htype : (rowOf c ts t).type = type)
    (hscore : t.score = score)
    (hwrite : writeToDb = false → ¬Writes c ts t .snapshot ∧ ¬Writes c ts t .alarm) :
    Adds c ts t e (e.pushFrame c t.reading t.packet type score writeToDb) := by
  have hframes : e.frames = ts.length + 1 := by rw [h.frames, List.length_append]; rfl
  have hframe : Frame.mk e.frames type t.packet.timestamp
      ((t.packet.timestamp - c.startTime).tdiv 1000) score t.reading.audioPeak
      t.packet.zoneStats = rowOf c ts t := by
    rw [hframes, ← htype, ← hscore]
    rfl
  unfold Event.pushFrame
  simp only [hframe]
  split
  · obtain ⟨stats, hstats, heq⟩ := writeDbFrames_eq c { e with
      frameData := e.frameData ++ [rowOf c ts t] }
    have htotals := h.totals (List.append_ne_nil_of_right_ne_nil _ nofun)
    rw [heq]
    refine .flushed stats hrow hstats rfl hframes ?_
    simp only [List.append_assoc, List.cons_append]
    rw [← htotals]
    rfl
  · next hnot =>
    push Not at hnot
    obtain ⟨hnowrite, hroom, -⟩ := hnot
    obtain ⟨hsnapshot, halarm⟩ := hwrite (by simpa using hnowrite)
    exact .waits hrow hsnapshot halarm rfl hroom rfl rfl

def imagesOf (c : Settings) (ts : List Taken) (t : Taken) : List (ImageFile × ℕ) :=
  [ImageFile.capture, .snapshot, .alarm, .analyse].flatMap fun file ↦
    if Writes c ts t file then [(file, ts.length + 1)] else []

theorem imagesOf_pictures (file : ImageFile) :
    (imagesOf c ts t).filterMap (fun i ↦ if i.1 = file then some i.2 else none) =
      if Writes c ts t file then [ts.length + 1] else [] := by
  have hpiece (f : ImageFile) :
      (if Writes c ts t f then [(f, ts.length + 1)] else []).filterMap
        (fun i ↦ if i.1 = file then some i.2 else none) =
      if f = file ∧ Writes c ts t f then [ts.length + 1] else [] := by
    by_cases hf : f = file
    · subst hf
      split <;> simp_all
    · split <;> simp [hf]
  simp only [imagesOf, List.flatMap_cons, List.flatMap_nil, List.filterMap_append, hpiece]
  cases file <;> simp

theorem snapshot_or (t : Taken) (ts : List Taken) (himage : t.packet.image = true) :
    (ts.any (fun t ↦ t.packet.image) || decide (Writes c ts t .snapshot)) = true := by
  cases hany : ts.any fun t ↦ t.packet.image with
  | true => rfl
  | false =>
    rw [Bool.false_or, decide_eq_true_eq]
    refine ⟨himage, .inr fun u hu ↦ ?_⟩
    simpa using List.any_eq_false.mp hany u hu

theorem alarm_or (t : Taken) (ts : List Taken) (himage : t.packet.image = true) :
    (ts.any (fun t ↦ t.packet.image && t.alarmed) || decide (Writes c ts t .alarm)) =
      (ts.any (fun t ↦ t.packet.image && t.alarmed) || t.alarmed) := by
  cases hany : ts.any fun t ↦ t.packet.image && t.alarmed with
  | true => rfl
  | false =>
    have hnone : ∀ u ∈ ts, ¬(u.packet.image = true ∧ u.alarmed = true) := by
      intro u hu
      simpa using List.any_eq_false.mp hany u hu
    have hiff : Writes c ts t .alarm ↔ t.alarmed = true :=
      ⟨fun h ↦ h.2.1, fun h ↦ ⟨himage, h, hnone⟩⟩
    rw [Bool.false_or, Bool.false_or, Bool.eq_iff_iff, decide_eq_true_eq]
    exact hiff

/-- The images of a frame, given what is known of the frames before it. -/
theorem writeImages_eq {type : FrameType} (hframes : e.frames = ts.length + 1)
    (hlouder : t.score > e.maxScore ↔ ∀ u ∈ ts, u.score < t.score)
    (hsnapshot : e.snapshotFileWritten = ts.any fun t ↦ t.packet.image)
    (halarm : e.alarmFrameWritten = ts.any fun t ↦ t.packet.image && t.alarmed)
    (htype : type = .alarm ↔ t.alarmed = true) :
    e.writeImages c t.packet type t.score =
      (decide (Writes c ts t .snapshot ∨ Writes c ts t .alarm), { e with
        snapshotFileWritten := (ts ++ [t]).any fun t ↦ t.packet.image
        alarmFrameWritten := (ts ++ [t]).any fun t ↦ t.packet.image && t.alarmed
        images := e.images ++ imagesOf c ts t }) := by
  rw [List.any_append, List.any_append, List.any_cons, List.any_cons, List.any_nil]
  unfold Event.writeImages
  cases himage : t.packet.image with
  | false =>
    have hnone (file : ImageFile) : ¬Writes c ts t file := by
      cases file <;> simp [Writes, himage]
    simp [imagesOf, hnone, ← hsnapshot, ← halarm]
  | true =>
    have hsnap : (e.frames = 1 || t.score > e.maxScore || !e.snapshotFileWritten) =
        decide (Writes c ts t .snapshot) := by
      have hfirst : ts = [] → ∀ u ∈ ts, u.score < t.score := by
        rintro rfl
        exact List.forall_mem_nil _
      rw [Bool.eq_iff_iff]
      simp only [hframes, hlouder, hsnapshot, Writes, himage, Bool.or_eq_true, decide_eq_true_eq,
        Nat.add_eq_right, List.length_eq_zero_iff, Bool.not_eq_true', List.any_eq_false,
        Bool.not_eq_true, true_and]
      tauto
    have halert : (type = .alarm && !e.alarmFrameWritten) = decide (Writes c ts t .alarm) := by
      rw [Bool.eq_iff_iff]
      simp [htype, halarm, Writes, himage]
    have hcapture : Writes c ts t .capture ↔ c.saveJpegs.testBit 0 = true := by
      simp [Writes, himage]
    have hanalyse : Writes c ts t .analyse ↔
        (c.saveJpegs.testBit 1 && t.packet.analysisImage) = true := by
      simp [Writes, himage]
    simp only [if_true, hsnap, halert]
    rw [hsnapshot, halarm, snapshot_or t ts himage, alarm_or t ts himage, hframes]
    simp [imagesOf, hcapture, hanalyse]

theorem frameType_alarm {state : Analysis.State} {n : ℕ} {score : ℤ} :
    frameType c state n score = .alarm ↔ 0 < score := by
  unfold frameType
  split
  · next hpos => exact iff_of_true rfl hpos
  · next hnot => split <;> exact iff_of_false nofun hnot

/-- The row of a frame is made where the frame has one. -/
theorem hasRow_iff (h : e.frames = ts.length + 1)
    (hlouder : t.score > e.maxScore ↔ ∀ u ∈ ts, u.score < t.score) :
    ((rowOf c ts t).type = .bulk ∨ (rowOf c ts t).type = .alarm ∨ e.frames = 1 ∨
      t.score > e.maxScore ∨ t.reading.state = .alert ∨ t.reading.state = .alarm ∨
      t.reading.state = .prealarm) ↔ HasRow c ts t := by
  have hfirst : e.frames = 1 → ∀ u ∈ ts, u.score < t.score := by
    intro hone
    rw [List.length_eq_zero_iff.mp (by omega : ts.length = 0)]
    exact List.forall_mem_nil _
  have htype : (rowOf c ts t).type ≠ .normal ↔
      (rowOf c ts t).type = .bulk ∨ (rowOf c ts t).type = .alarm := by
    cases (rowOf c ts t).type <;> simp
  have hstate : t.reading.state ∈ [.prealarm, .alarm, .alert] ↔
      t.reading.state = .alert ∨ t.reading.state = .alarm ∨ t.reading.state = .prealarm := by
    cases t.reading.state <;> simp
  rw [HasRow, hstate, hlouder]
  refine Iff.trans ?_ (or_congr htype.symm Iff.rfl)
  rw [or_assoc]
  exact or_congr Iff.rfl (or_congr Iff.rfl (or_iff_right_of_imp fun hone ↦ .inl (hfirst hone)))

/-- The counters after a frame. -/
theorem Follows.raise {type : FrameType} (h : Follows ts e)
    (halarm : type = .alarm ↔ t.alarmed = true) {images : List (ImageFile × ℕ)} :
    Follows (ts ++ [t]) (if t.score > e.maxScore then { e with
        frames := e.frames + 1
        alarmFrames := if type = .alarm then e.alarmFrames + 1 else e.alarmFrames
        alarmFrameWritten := (ts ++ [t]).any fun t ↦ t.packet.image && t.alarmed
        totScore := e.totScore + t.score
        maxScore := t.score
        maxScoreFrameId := e.frames + 1
        snapshotFileWritten := (ts ++ [t]).any fun t ↦ t.packet.image
        images := images }
      else { e with
        frames := e.frames + 1
        alarmFrames := if type = .alarm then e.alarmFrames + 1 else e.alarmFrames
        alarmFrameWritten := (ts ++ [t]).any fun t ↦ t.packet.image && t.alarmed
        totScore := e.totScore + t.score
        snapshotFileWritten := (ts ++ [t]).any fun t ↦ t.packet.image
        images := images }) := by
  have hne : ts ++ [t] ≠ [] := List.append_ne_nil_of_right_ne_nil _ nofun
  have hframes : e.frames + 1 = (ts ++ [t]).length := by rw [h.frames, List.length_append]; rfl
  have halarms : (if type = .alarm then e.alarmFrames + 1 else e.alarmFrames) =
      (ts ++ [t]).countP Taken.alarmed := by
    rw [List.countP_append, List.countP_singleton, ← h.alarmFrames]
    simp only [halarm]
    split <;> rfl
  have htot : e.totScore + t.score = ((ts ++ [t]).map Taken.score).sum := by
    rw [h.totScore, List.map_append, List.sum_append, List.map_singleton, List.sum_singleton]
  split
  · next hloud =>
    have hlouder := h.louder_iff.mp hloud
    refine ⟨hframes, halarms, htot, ?_, ?_, rfl, rfl⟩
    · rw [if_neg hne, loudest_concat, max_eq_right]
      by_cases hts : ts = []
      · subst hts
        exact t.score_nonneg
      · obtain ⟨u, hu, hscore⟩ := exists_loudest hts
        exact hscore ▸ (hlouder u hu).le
    · rw [loudestFrame_concat_louder hlouder, ← h.frames]
  · next hquiet =>
    obtain ⟨u, hu, hscore⟩ : ∃ u ∈ ts, t.score ≤ u.score := by
      have hnot := mt h.louder_iff.mpr hquiet
      push Not at hnot
      exact hnot
    refine ⟨hframes, halarms, htot, ?_, ?_, rfl, rfl⟩
    · rw [if_neg hne, h.maxScore, if_neg (List.ne_nil_of_mem hu), loudest_concat,
        max_eq_left (hscore.trans (le_loudest hu))]
    · rw [loudestFrame_concat_quieter hu hscore]
      exact h.maxScoreFrameId

theorem pushFrame_eq (c : Settings) (reading : Reading) (packet : ZMPacket) (type : FrameType)
    (score : ℤ) (writeToDb : Bool) (e : Event) :
    ∃ data queue last, e.pushFrame c reading packet type score writeToDb =
      { e with frameData := data, dbQueue := queue, lastDbFrame := last } := by
  unfold Event.pushFrame
  dsimp only
  split
  · obtain ⟨stats, -, heq⟩ := writeDbFrames_eq c { e with
      frameData := e.frameData ++ [⟨e.frames, type, packet.timestamp,
        (packet.timestamp - c.startTime).tdiv 1000, score, reading.audioPeak,
        packet.zoneStats⟩] }
    rw [heq]
    exact ⟨_, _, _, rfl⟩
  · exact ⟨_, _, _, rfl⟩

theorem Adds.of_eq {e₁ : Event} (h : Adds c ts t e₁ e') (hdata : e₁.frameData = e.frameData)
    (hqueue : e₁.dbQueue = e.dbQueue) (hlast : e₁.lastDbFrame = e.lastDbFrame) :
    Adds c ts t e e' := by
  cases h with
  | skipped hrow hd hq hl =>
    exact .skipped hrow (hd.trans hdata) (hq.trans hqueue) (hl.trans hlast)
  | waits hrow hsnapshot halarm hd hroom hq hl =>
    exact .waits hrow hsnapshot halarm (hdata ▸ hd) hroom (hq.trans hqueue) (hl.trans hlast)
  | flushed stats hrow hstats hd hl hq =>
    exact .flushed stats hrow hstats hd hl (by rw [hq, hqueue, hdata])

/-- What AddFrame does with a frame. -/
theorem addFrame_step (h : Follows ts e) (ht : t.packet.timestamp ≠ 0) :
    Follows (ts ++ [t]) (e.addFrame c t.reading t.packet) ∧
      Adds c ts t e (e.addFrame c t.reading t.packet) ∧
      (e.addFrame c t.reading t.packet).images = e.images ++ imagesOf c ts t := by
  have hscore : (if t.packet.score < 0 then 0 else t.packet.score) = t.score := by
    unfold Taken.score
    split <;> omega
  have htype : frameType c t.reading.state (e.frames + 1) t.packet.score =
      (rowOf c ts t).type := by
    rw [h.frames]
    rfl
  have halarm : (rowOf c ts t).type = .alarm ↔ t.alarmed = true := by
    rw [Taken.alarmed, decide_eq_true_eq]
    exact frameType_alarm
  have hlouder := h.louder_iff (t := t)
  generalize hcounted : ({ e with
    frames := e.frames + 1
    alarmFrames := if (rowOf c ts t).type = .alarm then e.alarmFrames + 1 else e.alarmFrames
    totScore := e.totScore + t.score } : Event) = e₁
  have hlength : e₁.frames = ts.length + 1 := by rw [← hcounted, ← h.frames]
  have himages := @writeImages_eq c ts t e₁ _ hlength
    (by rw [← hcounted]; exact hlouder) (by rw [← hcounted]; exact h.snapshot)
    (by rw [← hcounted]; exact h.alarm) halarm
  have hrow := @hasRow_iff c ts t e₁ hlength
    (by rw [← hcounted]; exact hlouder)
  unfold Event.addFrame
  rw [if_neg ht]
  simp only [hscore, htype, hcounted, himages]
  generalize hraised : (if t.score > e₁.maxScore then _ else _ : Event) = e₂
  have hfollows : Follows (ts ++ [t]) e₂ := by
    rw [← hraised, ← hcounted]
    exact h.raise halarm
  have hsame : e₂.frameData = e.frameData ∧ e₂.dbQueue = e.dbQueue ∧
      e₂.lastDbFrame = e.lastDbFrame ∧ e₂.images = e.images ++ imagesOf c ts t := by
    have hbefore : e₁.frameData = e.frameData ∧ e₁.dbQueue = e.dbQueue ∧
        e₁.lastDbFrame = e.lastDbFrame ∧ e₁.images = e.images := by
      rw [← hcounted]
      exact ⟨rfl, rfl, rfl, rfl⟩
    rw [← hbefore.1, ← hbefore.2.1, ← hbefore.2.2.1, ← hbefore.2.2.2, ← hraised]
    split <;> exact ⟨rfl, rfl, rfl, rfl⟩
  obtain ⟨hdata, hqueue, hlast, himages⟩ := hsame
  split
  · next hpushes =>
    obtain ⟨data, queue, last, hpush⟩ := pushFrame_eq c t.reading t.packet (rowOf c ts t).type
      t.score (decide (Writes c ts t .snapshot ∨ Writes c ts t .alarm)) e₂
    have hadds := pushFrame_adds hfollows (hrow.mp hpushes) rfl rfl fun hno ↦
      not_or.mp (of_decide_eq_false hno)
    refine ⟨?_, hadds.of_eq hdata hqueue hlast, ?_⟩
    · rw [hpush]
      exact ⟨hfollows.1, hfollows.2, hfollows.3, hfollows.4, hfollows.5, hfollows.6, hfollows.7⟩
    · rw [hpush, ← himages]
  · next hnot =>
    exact ⟨hfollows, .skipped (fun hpushes ↦ hnot (hrow.mpr hpushes)) hdata hqueue hlast, himages⟩

end ZoneMinder.Recorder
