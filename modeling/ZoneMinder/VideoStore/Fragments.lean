import Mathlib.Data.List.Infix
import ZoneMinder.Lib.Segments
import ZoneMinder.Lib.Run
import ZoneMinder.VideoStore.Playlist

namespace ZoneMinder.VideoStore

open Lib

/-- An AVPacket on its way to the muxer; AV_NOPTS_VALUE is none. -/
structure Packet where
  streamIndex : ℤ
  key : Bool
  pts : Option ℤ
  dts : Option ℤ
  duration : ℤ

/-- `video_out_stream`: its index and its time base. -/
structure Stream where
  index : ℤ
  num : ℤ
  den : ℤ

/-- What write_packet and finalize keep between the calls. `muxed` has the timestamps of all
packets given to av_interleaved_write_frame, as (stream, pts, dts). -/
structure Recording where
  pb : Bool := true
  finalized : Bool := false
  muxed : List (ℤ × ℤ × ℤ) := []
  nextDts : ℤ → ℤ := fun _ ↦ 0
  lastDts : ℤ → Option ℤ := fun _ ↦ none
  lastDuration : ℤ → ℤ := fun _ ↦ 0
  fragments : List Fragment := []
  lastFragmentOffset : ℤ
  lastFragmentStartDts : Option ℤ := none

/-- A call of write_packet; `position` is what avio_tell returns after the packet has been
written and the output flushed. -/
structure Write where
  packet : Packet
  position : ℤ

def fixDts (last : Option ℤ) (lastDuration : ℤ) (dts : Option ℤ) : ℤ :=
  match dts, last with
  | none, some last => last + 1
  | none, none => 0
  | some dts, some last =>
    if dts < last then last + lastDuration else if dts = last then last + 1 else dts
  | some dts, none => dts

def fixPts (dts : ℤ) (pts : Option ℤ) : ℤ :=
  match pts with
  | none => dts
  | some pts => if dts > pts then dts else pts

section

variable (video : Stream)

/-- A number of ticks in seconds. -/
def seconds (ticks : ℤ) : ℚ := if video.den > 0 then ticks * video.num / video.den else 0

/-- Record the fragment that ends at a position and a time, if it has a length and lasts. -/
def recordFragment (dts position : ℤ) (s : Recording) : List Fragment :=
  match s.lastFragmentStartDts with
  | none => s.fragments
  | some start =>
    if position > s.lastFragmentOffset then
      let fragSize := position - s.lastFragmentOffset
      let duration := seconds video (dts - start)
      if duration > 0 ∧ fragSize > 0 then
        s.fragments ++ [⟨s.lastFragmentOffset, fragSize, duration⟩]
      else s.fragments
    else s.fragments

def isVideoKeyframe (packet : Packet) : Bool :=
  decide (packet.streamIndex = video.index) && packet.key

/-- The dts a packet is written with. -/
def Recording.dts (s : Recording) (packet : Packet) : ℤ :=
  fixDts (s.lastDts packet.streamIndex) (s.lastDuration packet.streamIndex) packet.dts

def writePacket (s : Recording) (w : Write) : Recording :=
  let stream := w.packet.streamIndex
  let dts := s.dts w.packet
  let s := { s with
    muxed := s.muxed ++ [(stream, fixPts dts w.packet.pts, dts)]
    nextDts := Function.update s.nextDts stream (dts + w.packet.duration)
    lastDts := Function.update s.lastDts stream (some dts)
    lastDuration := Function.update s.lastDuration stream w.packet.duration }
  if isVideoKeyframe video w.packet && s.pb then
    { s with
      fragments := recordFragment video dts w.position s
      lastFragmentOffset := w.position
      lastFragmentStartDts := some dts }
  else s

/-- What finalize finds: the packets left in the reorder queues and the codecs, as it writes
them, and `fragment_n_end`, the end of the media in the finished file. -/
structure Finish where
  drained : List Write
  fragmentNEnd : ℤ

def finalize (fin : Finish) (s : Recording) : Recording :=
  if s.finalized then s
  else
    let s := { s with finalized := true }
    if !s.pb then s
    else
      let s := { fin.drained.foldl (writePacket video) s with pb := false }
      match s.lastDts video.index with
      | none => s
      | some last =>
        { s with fragments :=
            recordFragment video (last + s.lastDuration video.index) fin.fragmentNEnd s }

/-- The state after open, and a number of packets later. -/
def record (offset : ℤ) (writes : List Write) : Recording :=
  writes.foldl (writePacket video) { lastFragmentOffset := offset }

/-- A fragment that ends so has no bytes, or it lasts. -/
def Recording.Lasts (s : Recording) (dts position : ℤ) : Prop :=
  ∀ start, s.lastFragmentStartDts = some start → s.lastFragmentOffset < position →
    0 < video.den ∧ 0 < (dts - start) * video.num

/-- Every fragment that a video keyframe ends lasts. -/
def KeyframesAdvance (offset : ℤ) (writes : List Write) : Prop :=
  ∀ before w, before ++ [w] <+: writes → isVideoKeyframe video w.packet = true →
    (record video offset before).Lasts video ((record video offset before).dts w.packet) w.position

/-- The fragment that finalize ends lasts. -/
def FinishAdvances (offset : ℤ) (writes : List Write) (fin : Finish) : Prop :=
  let s := record video offset (writes ++ fin.drained)
  ∀ last, s.lastDts video.index = some last →
    s.Lasts video (last + s.lastDuration video.index) fin.fragmentNEnd

/-- The fragments lie side by side from the position recorded at the first video keyframe to
the end of the media. -/
def Tiled (writes : List Write) (fin : Finish) (fragments : List Fragment) : Prop :=
  match (writes ++ fin.drained).find? (isVideoKeyframe video ·.packet) with
  | none => fragments = []
  | some first =>
    SideBySide Fragment.offset Fragment.size first.position fin.fragmentNEnd fragments

end

variable {video : Stream} {s : Recording} {w first : Write} {writes : List Write} {fin : Finish}
  {a offset dts position start : ℤ} {whole : Bool}

theorem seconds_pos {ticks : ℤ} :
    0 < seconds video ticks ↔ 0 < video.den ∧ 0 < ticks * video.num := by
  unfold seconds
  split
  · next hden =>
    rw [← Int.cast_mul, div_pos_iff_of_pos_right (Int.cast_pos.mpr hden), Int.cast_pos]
    exact (and_iff_right hden).symm
  · next hden => exact iff_of_false (lt_irrefl 0) fun h ↦ hden h.1

/-- A fragment is recorded unless it has bytes and does not last. -/
theorem recordFragment_recorded
    (h : Recorded Fragment.offset Fragment.size a s.lastFragmentOffset whole s.fragments)
    (hstart : s.lastFragmentStartDts = some start) (hposition : s.lastFragmentOffset ≤ position) :
    ∃ whole', Recorded Fragment.offset Fragment.size a position whole'
        (recordFragment video dts position s) ∧
      (whole' = true ↔ whole = true ∧ s.Lasts video dts position) := by
  have hlasts : s.Lasts video dts position ↔
      (s.lastFragmentOffset < position → 0 < seconds video (dts - start)) := by
    rw [seconds_pos]
    refine ⟨fun hlasts ↦ hlasts start hstart, fun hlasts start' hstart' ↦ ?_⟩
    rw [hstart] at hstart'
    obtain rfl := Option.some.inj hstart'
    exact hlasts
  unfold recordFragment
  simp only [hstart]
  rcases hposition.eq_or_lt with heq | hlt
  · subst heq
    rw [if_neg (lt_irrefl _), hlasts]
    exact ⟨whole, h, iff_self_and.mpr fun _ hlt ↦ absurd hlt (lt_irrefl _)⟩
  rw [if_pos hlt, hlasts]
  by_cases hseconds : 0 < seconds video (dts - start)
  · rw [if_pos ⟨hseconds, Int.sub_pos_of_lt hlt⟩]
    refine ⟨whole, ?_, iff_self_and.mpr fun _ _ ↦ hseconds⟩
    simpa only [add_sub_cancel] using h.keep ⟨s.lastFragmentOffset,
      position - s.lastFragmentOffset, seconds video (dts - start)⟩ rfl
  · rw [if_neg fun hrecord ↦ hseconds hrecord.1]
    exact ⟨false, h.skip hlt, iff_of_false Bool.false_ne_true fun hall ↦ hseconds (hall.2 hlt)⟩

theorem isVideoKeyframe_index {packet : Packet} (hkey : isVideoKeyframe video packet = true) :
    packet.streamIndex = video.index := of_decide_eq_true ((Bool.and_eq_true _ _).mp hkey).1

theorem writePacket_pb : (writePacket video s w).pb = s.pb ∧
    (writePacket video s w).finalized = s.finalized := by
  unfold writePacket
  dsimp only
  split <;> exact ⟨rfl, rfl⟩

theorem writePacket_other (hother : isVideoKeyframe video w.packet = false) :
    (writePacket video s w).fragments = s.fragments ∧
    (writePacket video s w).lastFragmentOffset = s.lastFragmentOffset ∧
    (writePacket video s w).lastFragmentStartDts = s.lastFragmentStartDts := by
  unfold writePacket
  dsimp only
  rw [hother, Bool.false_and, if_neg Bool.false_ne_true]
  exact ⟨rfl, rfl, rfl⟩

theorem writePacket_keyframe (hkey : isVideoKeyframe video w.packet = true) (hpb : s.pb = true) :
    (writePacket video s w).fragments = recordFragment video (s.dts w.packet) w.position s ∧
    (writePacket video s w).lastFragmentOffset = w.position ∧
    (writePacket video s w).lastFragmentStartDts = some (s.dts w.packet) := by
  unfold writePacket
  dsimp only
  rw [hkey, hpb, Bool.true_and, if_pos rfl]
  exact ⟨rfl, rfl, rfl⟩

theorem writePacket_lastDts : (writePacket video s w).lastDts =
    Function.update s.lastDts w.packet.streamIndex (some (s.dts w.packet)) := by
  unfold writePacket
  dsimp only
  split <;> rfl

theorem writePacket_isSome {i : ℤ} (h : (s.lastDts i).isSome ∨ w.packet.streamIndex = i) :
    ((writePacket video s w).lastDts i).isSome := by
  rw [writePacket_lastDts]
  by_cases hi : i = w.packet.streamIndex
  · rw [hi, Function.update_self, Option.isSome_some]
  · rw [Function.update_of_ne hi]
    exact h.resolve_right (Ne.symm hi)

theorem record_snoc :
    record video offset (writes ++ [w]) = writePacket video (record video offset writes) w :=
  List.foldl_append

theorem record_pb :
    (record video offset writes).pb = true ∧ (record video offset writes).finalized = false := by
  induction writes using List.reverseRecOn with
  | nil => exact ⟨rfl, rfl⟩
  | append_singleton writes w ih =>
    obtain ⟨hpb, hfinalized⟩ := @writePacket_pb video (record video offset writes) w
    rw [record_snoc, hpb, hfinalized]
    exact ih

/-- What is tracked once the first video keyframe has been written. -/
structure Tracked (video : Stream) (offset : ℤ) (writes : List Write) (first : Write) : Prop where
  timed : ((record video offset writes).lastDts video.index).isSome
  started : ∃ start, (record video offset writes).lastFragmentStartDts = some start
  reached : ∃ w ∈ writes, w.position = (record video offset writes).lastFragmentOffset
  recorded : ∃ whole, Recorded Fragment.offset Fragment.size first.position
      (record video offset writes).lastFragmentOffset whole
      (record video offset writes).fragments ∧
    (whole = true ↔ KeyframesAdvance video offset writes)

theorem keyframesAdvance_snoc : KeyframesAdvance video offset (writes ++ [w]) ↔
    KeyframesAdvance video offset writes ∧
      (isVideoKeyframe video w.packet = true → (record video offset writes).Lasts video
        ((record video offset writes).dts w.packet) w.position) :=
  along_concat

theorem find?_snoc : (writes ++ [w]).find? (isVideoKeyframe video ·.packet) =
    (writes.find? (isVideoKeyframe video ·.packet)).or
      (if isVideoKeyframe video w.packet then some w else none) := by
  rw [List.find?_append, List.find?_singleton]

/-- Nothing is tracked before the first video keyframe. -/
theorem record_of_none (h : writes.find? (isVideoKeyframe video ·.packet) = none) :
    (record video offset writes).fragments = [] ∧
    (record video offset writes).lastFragmentStartDts = none ∧
    KeyframesAdvance video offset writes := by
  induction writes using List.reverseRecOn with
  | nil =>
    refine ⟨rfl, rfl, fun before w hbefore ↦ ?_⟩
    exact absurd (List.prefix_nil.mp hbefore) (List.append_ne_nil_of_right_ne_nil _ nofun)
  | append_singleton writes w ih =>
    rw [find?_snoc, Option.or_eq_none_iff] at h
    obtain ⟨hwrites, hw⟩ := h
    have hother : isVideoKeyframe video w.packet = false := by
      rw [Bool.eq_false_iff]
      intro hkey
      rw [if_pos hkey] at hw
      contradiction
    obtain ⟨hfragments, hstart, hadvance⟩ := ih hwrites
    obtain ⟨hfragments', -, hstart'⟩ := @writePacket_other video (record video offset writes) w hother
    rw [record_snoc, hfragments', hstart', keyframesAdvance_snoc]
    refine ⟨hfragments, hstart, hadvance, fun hkey ↦ ?_⟩
    rw [hother] at hkey
    contradiction

theorem tracked_first (h : writes.find? (isVideoKeyframe video ·.packet) = none)
    (hkey : isVideoKeyframe video w.packet = true) : Tracked video offset (writes ++ [w]) w := by
  obtain ⟨hfragments, hstart, hadvance⟩ := @record_of_none video writes offset h
  obtain ⟨hfragments', hoffset', hstart'⟩ := writePacket_keyframe (w := w) hkey
    (@record_pb video writes offset).1
  have hnil : recordFragment video ((record video offset writes).dts w.packet) w.position
      (record video offset writes) = [] := by
    rw [recordFragment, hstart]
    exact hfragments
  constructor
  · rw [record_snoc]
    exact writePacket_isSome (.inr (isVideoKeyframe_index hkey))
  · rw [record_snoc]
    exact ⟨_, hstart'⟩
  · rw [record_snoc]
    exact ⟨w, List.mem_append_right _ (List.mem_singleton_self w), hoffset'.symm⟩
  · rw [record_snoc, hfragments', hoffset', hnil, keyframesAdvance_snoc]
    refine ⟨true, .start _, iff_of_true rfl ⟨hadvance, fun _ start hstart' ↦ ?_⟩⟩
    rw [hstart] at hstart'
    contradiction

theorem Tracked.step (h : Tracked video offset writes first)
    (hpos : ∀ v ∈ writes, v.position ≤ w.position) : Tracked video offset (writes ++ [w]) first := by
  obtain ⟨start, hstart⟩ := h.started
  obtain ⟨v, hv, hreached⟩ := h.reached
  obtain ⟨whole, hrecorded, hwhole⟩ := h.recorded
  have htimed : ((record video offset (writes ++ [w])).lastDts video.index).isSome := by
    rw [record_snoc]
    exact writePacket_isSome (.inl h.timed)
  cases hkey : isVideoKeyframe video w.packet with
  | false =>
    obtain ⟨hfragments', hoffset', hstart'⟩ := writePacket_other (s := record video offset writes) hkey
    refine ⟨htimed, ?_, ?_, ?_⟩
    · rw [record_snoc, hstart']
      exact ⟨start, hstart⟩
    · rw [record_snoc, hoffset']
      exact ⟨v, List.mem_append_left _ hv, hreached⟩
    · rw [record_snoc, hoffset', hfragments', keyframesAdvance_snoc, hkey]
      exact ⟨whole, hrecorded, hwhole.trans (iff_self_and.mpr fun _ ↦ nofun)⟩
  | true =>
    obtain ⟨hfragments', hoffset', hstart'⟩ := writePacket_keyframe (w := w) hkey
      (@record_pb video writes offset).1
    obtain ⟨whole', hrecorded', hwhole'⟩ := @recordFragment_recorded video _ _
      ((record video offset writes).dts w.packet) w.position start whole hrecorded hstart
      (hreached ▸ hpos v hv)
    refine ⟨htimed, ?_, ?_, ?_⟩
    · rw [record_snoc]
      exact ⟨_, hstart'⟩
    · rw [record_snoc]
      exact ⟨w, List.mem_append_right _ (List.mem_singleton_self w), hoffset'.symm⟩
    · rw [record_snoc, hoffset', hfragments', keyframesAdvance_snoc]
      refine ⟨whole', hrecorded', ?_⟩
      rw [hwhole', hwhole, forall_prop_of_true hkey]

theorem tracked_of_some (hpos : writes.Pairwise fun v w ↦ v.position ≤ w.position)
    (h : writes.find? (isVideoKeyframe video ·.packet) = some first) :
    Tracked video offset writes first := by
  induction writes using List.reverseRecOn with
  | nil => contradiction
  | append_singleton writes w ih =>
    obtain ⟨hwrites, -, hlast⟩ := List.pairwise_append.mp hpos
    rw [find?_snoc] at h
    cases hfind : writes.find? (isVideoKeyframe video ·.packet) with
    | some v =>
      rw [hfind, Option.some_or] at h
      obtain rfl := Option.some.inj h
      exact (ih hwrites hfind).step fun u hu ↦ hlast u hu w (List.mem_singleton_self w)
    | none =>
      rw [hfind, Option.none_or] at h
      split at h
      · next hkey =>
        obtain rfl := Option.some.inj h
        exact tracked_first hfind hkey
      · contradiction

theorem writePacket_finalized : writePacket video { s with finalized := true } w =
    { writePacket video s w with finalized := true } := by
  unfold writePacket
  dsimp only
  split <;> rfl

theorem drain_finalized (drained : List Write) :
    drained.foldl (writePacket video) { s with finalized := true } =
      { drained.foldl (writePacket video) s with finalized := true } := by
  induction drained generalizing s with
  | nil => rfl
  | cons w drained ih => rw [List.foldl_cons, writePacket_finalized, ih, List.foldl_cons]

theorem finalize_fragments (offset : ℤ) (writes : List Write) (fin : Finish) :
    let s := record video offset (writes ++ fin.drained)
    (finalize video fin (record video offset writes)).fragments =
      match s.lastDts video.index with
      | none => s.fragments
      | some last => recordFragment video (last + s.lastDuration video.index) fin.fragmentNEnd s := by
  obtain ⟨hpb, hfinalized⟩ := @record_pb video writes offset
  have hall : record video offset (writes ++ fin.drained) =
      fin.drained.foldl (writePacket video) (record video offset writes) := List.foldl_append
  unfold finalize
  rw [if_neg (by rw [hfinalized]; decide)]
  dsimp only
  rw [if_neg (by rw [hpb]; decide), drain_finalized, ← hall]
  dsimp only
  split <;> rfl

/-- The fragments tile the media exactly if every one of them that has bytes lasts. -/
theorem fragments_tiled_iff
    (hpos : (writes ++ fin.drained).Pairwise fun v w ↦ v.position ≤ w.position)
    (hend : ∀ w ∈ writes ++ fin.drained, w.position ≤ fin.fragmentNEnd) :
    Tiled video writes fin (finalize video fin (record video offset writes)).fragments ↔
      KeyframesAdvance video offset (writes ++ fin.drained) ∧
        FinishAdvances video offset writes fin := by
  unfold Tiled
  split
  · next hnone =>
    obtain ⟨hfragments, hstart, hadvance⟩ := @record_of_none video _ offset hnone
    refine iff_of_true ?_ ⟨hadvance, fun _ _ start hstart' ↦ ?_⟩
    · rw [finalize_fragments]
      split
      · exact hfragments
      · rw [recordFragment, hstart]
        exact hfragments
    · rw [hstart] at hstart'
      contradiction
  · next first hfirst =>
    have h := @tracked_of_some video first _ offset hpos hfirst
    obtain ⟨start, hstart⟩ := h.started
    obtain ⟨v, hv, hreached⟩ := h.reached
    obtain ⟨whole, hrecorded, hwhole⟩ := h.recorded
    obtain ⟨last, hlast⟩ := Option.isSome_iff_exists.mp h.timed
    have hfinish : FinishAdvances video offset writes fin ↔
        (record video offset (writes ++ fin.drained)).Lasts video
          (last + (record video offset (writes ++ fin.drained)).lastDuration video.index)
          fin.fragmentNEnd := by
      refine ⟨fun hfinish ↦ hfinish last hlast, fun hlasts last' hlast' ↦ ?_⟩
      rw [hlast] at hlast'
      obtain rfl := Option.some.inj hlast'
      exact hlasts
    rw [finalize_fragments, hlast]
    obtain ⟨whole', hrecorded', hwhole'⟩ := @recordFragment_recorded video _ _
      (last + (record video offset (writes ++ fin.drained)).lastDuration video.index)
      fin.fragmentNEnd start whole hrecorded hstart (hreached ▸ hend v hv)
    rw [hrecorded'.sideBySide_iff, hwhole', hwhole, hfinish]

/-- A video keyframe of stream 0 at 1/90000 s. -/
def keyframe (dts duration position : ℤ) : Write where
  packet := { streamIndex := 0, key := true, pts := dts, dts := dts, duration := duration }
  position := position

/-- Two seconds of video that end in a keyframe with a duration. -/
theorem two_keyframes_advance :
    let video : Stream := ⟨0, 1, 90000⟩
    let writes := [keyframe 0 90000 1024, keyframe 90000 90000 41024]
    KeyframesAdvance video 1024 (writes ++ []) ∧ FinishAdvances video 1024 writes ⟨[], 41500⟩ := by
  intro video writes
  have hfragments : (finalize video ⟨[], 41500⟩ (record video 1024 writes)).fragments =
      [⟨1024, 40000, 1⟩, ⟨41024, 476, 1⟩] := by decide +kernel
  have htiled : Tiled video writes ⟨[], 41500⟩
      (finalize video ⟨[], 41500⟩ (record video 1024 writes)).fragments := by
    rw [hfragments]
    exact ⟨rfl, rfl, rfl⟩
  have hpos : (writes ++ []).Pairwise fun v w : Write ↦ v.position ≤ w.position := by decide
  have hend : ∀ w ∈ writes ++ [], w.position ≤ 41500 := by decide
  exact (fragments_tiled_iff hpos hend).mp htiled

/-- An event that closes on a keyframe without a duration: the keyframe's bytes are in no
fragment. -/
theorem last_keyframe_dropped :
    let video : Stream := ⟨0, 1, 90000⟩
    let writes := [keyframe 0 90000 1024, keyframe 90000 0 41024]
    ¬Tiled video writes ⟨[], 41500⟩
      (finalize video ⟨[], 41500⟩ (record video 1024 writes)).fragments := by
  intro video writes
  have hfragments : (finalize video ⟨[], 41500⟩ (record video 1024 writes)).fragments =
      [⟨1024, 40000, 1⟩] := by decide +kernel
  rw [hfragments]
  rintro ⟨-, hend⟩
  have hend : (41024 : ℤ) = 41500 := hend
  exact absurd hend (by decide)

end ZoneMinder.VideoStore
