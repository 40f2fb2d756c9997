import Mathlib.Data.List.Induction
import Mathlib.Data.Rat.Floor
import Mathlib.Tactic.FieldSimp
import Mathlib.Tactic.LinearCombination
import ZoneMinder.Lib.Rounding

namespace ZoneMinder.DtsContinuity

open Lib

/-- A time base: seconds in one tick. -/
structure AVRational where
  num : ℤ
  den : ℤ
  num_pos : 0 < num
  den_pos : 0 < den

def AVRational.val (q : AVRational) : ℚ := q.num / q.den

/-- Microseconds. -/
def avTimeBaseQ : AVRational := ⟨1, 1000000, Int.one_pos, Int.natCast_pos.mpr (Nat.succ_pos _)⟩

/-- `a` ticks of `bq`, in ticks of `cq`. -/
def avRescaleQ (a : ℤ) (bq cq : AVRational) : ℤ := roundAway (a * bq.val / cq.val)

/-- AV_NOPTS_VALUE is none. -/
structure AVPacket where
  streamIndex : ℤ
  pts : Option ℤ
  dts : Option ℤ
  duration : ℤ
  deriving DecidableEq

/-- The monitor's dts_offset_, last_dts_ and last_dts_step_. -/
structure Timeline where
  dtsOffset : ℤ := 0
  lastDts : ℤ → Option ℤ := fun _ ↦ none
  lastDtsStep : ℤ → ℤ := fun _ ↦ 0

def kDtsStepBack : ℤ := 1000000

/-- pts - dts. -/
def AVPacket.lead (packet : AVPacket) : Option ℤ :=
  packet.pts.bind fun pts ↦ packet.dts.map (pts - ·)

section

variable (s : Timeline) (packet : AVPacket) (timeBase : AVRational)

/-- One frame on from the last packet. -/
def Timeline.frame : ℤ :=
  let frame := if 0 < packet.duration then avRescaleQ packet.duration timeBase avTimeBaseQ
    else s.lastDtsStep packet.streamIndex
  if frame ≤ 0 then 1 else frame

/-- The comparison with the stream's last dts, and the dts after it. -/
def Timeline.compare (dts : ℤ) : Timeline × ℤ :=
  match s.lastDts packet.streamIndex with
  | none => (s, dts)
  | some last =>
    let step := dts - last
    if step < -kDtsStepBack then
      let shift := last + s.frame packet timeBase - dts
      ({ s with dtsOffset := s.dtsOffset + shift }, dts + shift)
    else if 0 < step then
      ({ s with lastDtsStep := Function.update s.lastDtsStep packet.streamIndex step }, dts)
    else (s, dts)

def keepDtsContinuous : Timeline × AVPacket :=
  match packet.dts with
  | none => (s, packet)
  | some packetDts =>
    let (s, dts) :=
      s.compare packet timeBase (avRescaleQ packetDts timeBase avTimeBaseQ + s.dtsOffset)
    let s := { s with lastDts := Function.update s.lastDts packet.streamIndex (some dts) }
    if s.dtsOffset = 0 then (s, packet)
    else
      let shift := avRescaleQ s.dtsOffset avTimeBaseQ timeBase
      (s, { packet with dts := some (packetDts + shift), pts := packet.pts.map (· + shift) })

end

section

-- each stream has its time base
variable (timeBase : ℤ → AVRational)

def Timeline.step (s : Timeline) (packet : AVPacket) : Timeline :=
  (keepDtsContinuous s packet (timeBase packet.streamIndex)).1

/-- The packets of all streams as they are captured. -/
def run (packets : List AVPacket) : Timeline := packets.foldl (Timeline.step timeBase) {}

/-- A packet as it leaves, after those before it. -/
def emitted (before : List AVPacket) (packet : AVPacket) : AVPacket :=
  (keepDtsContinuous (run timeBase before) packet (timeBase packet.streamIndex)).2

/-- A tick of a stream, in microseconds. -/
def tick (stream : ℤ) : ℚ := (timeBase stream).val / avTimeBaseQ.val

end

section

variable {timeBase : ℤ → AVRational} {s : Timeline} {packet : AVPacket}
  {before later : List AVPacket}
  {tb : AVRational} {a b : AVRational} {d n dts : ℤ}

theorem AVRational.val_pos (q : AVRational) : 0 < q.val :=
  div_pos (Int.cast_pos.mpr q.num_pos) (Int.cast_pos.mpr q.den_pos)

@[simp] theorem avRescaleQ_zero : avRescaleQ 0 a b = 0 := by simp [avRescaleQ]

theorem abs_sub_avRescaleQ : |n * a.val / b.val - avRescaleQ n a b| ≤ 1 / 2 := abs_sub_roundAway _

theorem Timeline.frame_pos (s : Timeline) (packet : AVPacket) (tb : AVRational) :
    0 < s.frame packet tb := by
  rw [Timeline.frame]
  split <;> omega

/-- The offset moves by what the dts moves by, never back, and the dts is not far below the last
one. -/
theorem Timeline.compare_spec (s : Timeline) (packet : AVPacket) (tb : AVRational) (dts : ℤ) :
    ∃ shift, 0 ≤ shift ∧
    (s.compare packet tb dts).1.dtsOffset = s.dtsOffset + shift ∧
    (s.compare packet tb dts).2 = dts + shift ∧
    (s.compare packet tb dts).1.lastDts = s.lastDts ∧
    ∀ last ∈ s.lastDts packet.streamIndex, last - kDtsStepBack ≤ dts + shift := by
  have hframe := s.frame_pos packet tb
  have hback : 0 < kDtsStepBack := by decide
  rw [Timeline.compare]
  cases hlast : s.lastDts packet.streamIndex with
  | none => exact ⟨0, Int.le_refl 0, (add_zero _).symm, (add_zero _).symm, rfl, by simp⟩
  | some last =>
    dsimp only
    split
    case isTrue hstep =>
      refine ⟨last + s.frame packet tb - dts, by omega, rfl, rfl, rfl, ?_⟩
      intro l hl
      obtain rfl := Option.some.inj hl
      omega
    case isFalse hstep =>
      refine ⟨0, Int.le_refl 0, ?_, ?_, ?_, ?_⟩
      · split <;> exact (add_zero _).symm
      · split <;> exact (add_zero _).symm
      · split <;> rfl
      · intro l hl
        obtain rfl := Option.some.inj hl
        omega

/-- A packet leaves with the offset that it left behind, and is tracked with it. -/
theorem keepDtsContinuous_spec (s : Timeline) (tb : AVRational) (hd : packet.dts = some d) :
    ∃ offset, s.dtsOffset ≤ offset ∧
      (keepDtsContinuous s packet tb).1.dtsOffset = offset ∧
      (keepDtsContinuous s packet tb).1.lastDts = Function.update s.lastDts packet.streamIndex
        (some (avRescaleQ d tb avTimeBaseQ + offset)) ∧
      (∀ last ∈ s.lastDts packet.streamIndex,
        last - kDtsStepBack ≤ avRescaleQ d tb avTimeBaseQ + offset) ∧
      (keepDtsContinuous s packet tb).2.dts = some (d + avRescaleQ offset avTimeBaseQ tb) ∧
      (keepDtsContinuous s packet tb).2.pts =
        packet.pts.map (· + avRescaleQ offset avTimeBaseQ tb) := by
  obtain ⟨shift, hnonneg, hoffset, hdts, hlast, hback⟩ := s.compare_spec packet tb
    (avRescaleQ d tb avTimeBaseQ + s.dtsOffset)
  have hassoc : avRescaleQ d tb avTimeBaseQ + s.dtsOffset + shift =
    avRescaleQ d tb avTimeBaseQ + (s.dtsOffset + shift) := add_assoc _ _ _
  rw [hassoc] at hdts hback
  refine ⟨s.dtsOffset + shift, by omega, ?_, ?_, hback, ?_, ?_⟩ <;>
    simp only [keepDtsContinuous, hd, hdts, hlast, hoffset]
  · split <;> rfl
  · split <;> rfl
  · split
    case isTrue hzero => simp [hd, hzero]
    case isFalse => rfl
  · split
    case isTrue hzero => simp [hzero]
    case isFalse => rfl

theorem keepDtsContinuous_none (hd : packet.dts = none) :
    keepDtsContinuous s packet tb = (s, packet) := by
  rw [keepDtsContinuous, hd]

theorem run_concat :
    run timeBase (before ++ [packet]) = (run timeBase before).step timeBase packet :=
  List.foldl_append

theorem Timeline.le_step : s.dtsOffset ≤ (s.step timeBase packet).dtsOffset := by
  rw [Timeline.step]
  cases hd : packet.dts with
  | none => rw [keepDtsContinuous_none hd]
  | some d =>
    obtain ⟨offset, hle, hoffset, -⟩ := keepDtsContinuous_spec s
      (timeBase packet.streamIndex) hd
    rw [hoffset]
    exact hle

theorem run_mono : (run timeBase before).dtsOffset ≤ (run timeBase (before ++ later)).dtsOffset := by
  induction later using List.reverseRecOn with
  | nil => rw [List.append_nil]
  | append_singleton later packet ih =>
    rw [← List.append_assoc, run_concat]
    exact ih.trans Timeline.le_step

theorem emitted_dts (hd : packet.dts = some d) :
    (emitted timeBase before packet).dts = some (d + avRescaleQ
      (run timeBase (before ++ [packet])).dtsOffset avTimeBaseQ (timeBase packet.streamIndex)) := by
  obtain ⟨offset, -, hoffset, -, -, hdts, -⟩ := keepDtsContinuous_spec (run timeBase before)
    (timeBase packet.streamIndex) hd
  rw [emitted, hdts, run_concat, Timeline.step, hoffset]

theorem tracked_le (stream : ℤ) : ∀ last ∈ (run timeBase before).lastDts stream,
    ∃ dts ∈ (run timeBase (before ++ [packet])).lastDts stream, last - kDtsStepBack ≤ dts := by
  intro last hlast
  have hback : 0 < kDtsStepBack := by decide
  rw [run_concat, Timeline.step]
  cases hd : packet.dts with
  | none =>
    rw [keepDtsContinuous_none hd]
    exact ⟨last, hlast, by omega⟩
  | some d =>
    obtain ⟨offset, -, -, htracked, hnear, -, -⟩ := keepDtsContinuous_spec
      (run timeBase before) (timeBase packet.streamIndex) hd
    rw [htracked]
    by_cases hstream : stream = packet.streamIndex
    · subst hstream
      exact ⟨_, by rw [Function.update_self]; rfl, hnear last hlast⟩
    · rw [Function.update_of_ne hstream]
      exact ⟨last, hlast, by omega⟩

theorem emitted_lead : (emitted timeBase before packet).lead = packet.lead := by
  cases hd : packet.dts with
  | none => rw [emitted, keepDtsContinuous_none hd]
  | some d =>
    obtain ⟨offset, -, -, -, -, hdts, hpts⟩ := keepDtsContinuous_spec
      (run timeBase before) (timeBase packet.streamIndex) hd
    rw [AVPacket.lead, AVPacket.lead, emitted, hdts, hpts, hd]
    cases packet.pts with
    | none => rfl
    | some pts => simp

theorem abs_rescale_add_sub_le (d offset : ℤ) :
    |(avRescaleQ (d + avRescaleQ offset b a) a b : ℚ) - (avRescaleQ d a b + offset : ℤ)| ≤
      a.val / b.val + 1 := by
  have ha := a.val_pos
  have hb := b.val_pos
  have htick : 0 < a.val / b.val := div_pos ha hb
  obtain ⟨h₁, h₂⟩ := abs_le.mp (abs_sub_avRescaleQ (n := d + avRescaleQ offset b a) (a := a) (b := b))
  obtain ⟨h₃, h₄⟩ := abs_le.mp (abs_sub_avRescaleQ (n := d) (a := a) (b := b))
  -- the offset in ticks is off by half a tick at most
  have hoff : |offset - avRescaleQ offset b a * (a.val / b.val)| ≤ a.val / b.val / 2 := by
    have heq : offset - avRescaleQ offset b a * (a.val / b.val) =
        (offset * b.val / a.val - avRescaleQ offset b a) * (a.val / b.val) := by
      field_simp
    rw [heq, abs_mul, abs_of_pos htick]
    linarith [mul_le_mul_of_nonneg_right (abs_sub_avRescaleQ (n := offset) (a := b) (b := a))
      htick.le]
  obtain ⟨h₅, h₆⟩ := abs_le.mp hoff
  have hsum : ((d + avRescaleQ offset b a : ℤ) : ℚ) * a.val / b.val =
      d * a.val / b.val + avRescaleQ offset b a * (a.val / b.val) := by
    rw [Int.cast_add]
    ring
  rw [hsum] at h₁ h₂
  rw [Int.cast_add, abs_le]
  constructor <;> linarith

/-- The timestamps go on across clock steps. -/
theorem dts_continuous (timeBase : ℤ → AVRational) (before later : List AVPacket)
    (packet : AVPacket) :
    (run timeBase before).dtsOffset ≤ (run timeBase (before ++ later)).dtsOffset ∧
    (∀ stream, ∀ last ∈ (run timeBase before).lastDts stream,
      ∃ dts ∈ (run timeBase (before ++ [packet])).lastDts stream, last - kDtsStepBack ≤ dts) ∧
    (∀ next : AVPacket, next.streamIndex = packet.streamIndex →
      (run timeBase (before ++ [packet])).dtsOffset =
        (run timeBase (before ++ packet :: later ++ [next])).dtsOffset →
      ∀ d ∈ packet.dts, ∀ d' ∈ next.dts,
        ∃ e ∈ (emitted timeBase before packet).dts,
          ∃ e' ∈ (emitted timeBase (before ++ packet :: later) next).dts, e' - e = d' - d) ∧
    (emitted timeBase before packet).lead = packet.lead ∧
    (∀ d ∈ packet.dts, ∃ e ∈ (emitted timeBase before packet).dts,
      ∃ dts ∈ (run timeBase (before ++ [packet])).lastDts packet.streamIndex,
        |(avRescaleQ e (timeBase packet.streamIndex) avTimeBaseQ : ℚ) - dts| ≤
          tick timeBase packet.streamIndex + 1) := by
  refine ⟨run_mono, tracked_le, ?_, emitted_lead, ?_⟩
  · intro next hstream hoffset d hd d' hd'
    refine ⟨_, emitted_dts hd, _, emitted_dts hd', ?_⟩
    rw [← hoffset, hstream]
    ring
  · intro d hd
    obtain ⟨offset, -, -, htracked, -, hdts, -⟩ := keepDtsContinuous_spec
      (run timeBase before) (timeBase packet.streamIndex) hd
    refine ⟨_, hdts, _, ?_, abs_rescale_add_sub_le d offset⟩
    rw [run_concat, Timeline.step, htracked, Function.update_self]
    rfl

end

end ZoneMinder.DtsContinuity
