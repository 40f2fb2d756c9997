import ZoneMinder.Lib.Run
import ZoneMinder.VideoStore.Fragments

namespace ZoneMinder.VideoStore

open Lib

variable {video : Stream} {s : Recording} {w : Write} {packet : Packet} {writes : List Write}
  {offset stream : ℤ}

/-- The dts of the packets of a stream as av_interleaved_write_frame gets them. -/
def Recording.dtsOf (s : Recording) (stream : ℤ) : List ℤ :=
  (s.muxed.filter fun m ↦ m.1 = stream).map fun m ↦ m.2.2

/-- What a muxer asks of the timestamps. -/
structure Recording.Valid (s : Recording) : Prop where
  increasing : ∀ stream, (s.dtsOf stream).Pairwise (· < ·)
  presented : ∀ m ∈ s.muxed, m.2.2 ≤ m.2.1

/-- A packet whose dts goes back behind a packet without a duration. -/
def Recording.Stalls (s : Recording) (packet : Packet) : Prop :=
  s.lastDuration packet.streamIndex = 0 ∧
    ∃ dts ∈ packet.dts, ∃ last ∈ s.lastDts packet.streamIndex, dts < last

instance : Decidable (s.Stalls packet) := inferInstanceAs (Decidable (_ ∧ _))

/-- No packet of the sequence stalls where it comes. -/
def NeverStalls (video : Stream) (offset : ℤ) (writes : List Write) : Prop :=
  Along (fun before w ↦ ¬(record video offset before).Stalls w.packet) writes

theorem fixPts_ge (dts : ℤ) (pts : Option ℤ) : dts ≤ fixPts dts pts := by
  cases pts with
  | none => exact le_rfl
  | some pts =>
    rw [fixPts.eq_def]
    dsimp only
    split
    · exact le_rfl
    · next hle => exact not_lt.mp hle

/-- Only a stalling packet is not written behind the last one. -/
theorem lt_dts_iff {last : ℤ} (hlast : s.lastDts packet.streamIndex = some last)
    (hduration : 0 ≤ s.lastDuration packet.streamIndex) :
    last < s.dts packet ↔ ¬s.Stalls packet := by
  rw [Recording.dts, Recording.Stalls, hlast]
  cases hdts : packet.dts with
  | none =>
    refine iff_of_true (lt_add_one last) ?_
    rintro ⟨-, dts, hnone, -⟩
    cases hnone
  | some dts =>
    have hstalls : (∃ dts' ∈ some dts, ∃ last' ∈ some last, dts' < last') ↔ dts < last := by
      simp
    rw [hstalls, fixDts]
    split
    · next hlt => omega
    split
    · next heq => omega
    · omega

theorem writePacket_muxed : (writePacket video s w).muxed =
    s.muxed ++ [(w.packet.streamIndex, fixPts (s.dts w.packet) w.packet.pts, s.dts w.packet)] := by
  unfold writePacket
  dsimp only
  split <;> rfl

theorem writePacket_lastDuration : (writePacket video s w).lastDuration =
    Function.update s.lastDuration w.packet.streamIndex w.packet.duration := by
  unfold writePacket
  dsimp only
  split <;> rfl

theorem writePacket_dtsOf : (writePacket video s w).dtsOf stream =
    s.dtsOf stream ++ if w.packet.streamIndex = stream then [s.dts w.packet] else [] := by
  rw [Recording.dtsOf, writePacket_muxed, List.filter_append, List.map_append, ← Recording.dtsOf,
    List.filter_singleton]
  by_cases h : w.packet.streamIndex = stream
  · simp [h]
  · simp [h]

/-- What write_packet tracks of a stream is its last packet. -/
structure Follows (s : Recording) : Prop where
  lastDts : ∀ stream, s.lastDts stream = (s.dtsOf stream).getLast?
  lastDuration : ∀ stream, 0 ≤ s.lastDuration stream

theorem Follows.writePacket (h : Follows s) (hduration : 0 ≤ w.packet.duration) :
    Follows (writePacket video s w) := by
  constructor
  · intro stream
    rw [writePacket_lastDts, writePacket_dtsOf]
    by_cases hstream : w.packet.streamIndex = stream
    · rw [if_pos hstream, List.getLast?_concat, ← hstream, Function.update_self]
    · rw [if_neg hstream, List.append_nil, Function.update_of_ne (Ne.symm hstream)]
      exact h.lastDts stream
  · intro stream
    rw [writePacket_lastDuration]
    by_cases hstream : stream = w.packet.streamIndex
    · rw [hstream, Function.update_self]
      exact hduration
    · rw [Function.update_of_ne hstream]
      exact h.lastDuration stream

theorem pairwise_concat_iff {l : List ℤ} {a : ℤ} (hl : l.Pairwise (· < ·)) :
    (l ++ [a]).Pairwise (· < ·) ↔ ∀ last ∈ l.getLast?, last < a := by
  rw [List.pairwise_append]
  constructor
  · rintro ⟨-, -, hlt⟩ last hlast
    exact hlt last (List.mem_of_mem_getLast? hlast) a (List.mem_singleton_self a)
  · intro h
    refine ⟨hl, List.pairwise_singleton _ _, fun b hb c hc ↦ ?_⟩
    obtain rfl := List.mem_singleton.mp hc
    obtain ⟨init, last, rfl⟩ := (List.eq_nil_or_concat' l).resolve_left (List.ne_nil_of_mem hb)
    have hlast := h last (by simp)
    rcases List.mem_append.mp hb with hinit | hb
    · exact ((List.pairwise_append.mp hl).2.2 b hinit last (List.mem_singleton_self _)).trans hlast
    · rwa [List.mem_singleton.mp hb]

theorem Follows.valid_iff (h : Follows s) :
    (VideoStore.writePacket video s w).Valid ↔ s.Valid ∧ ¬s.Stalls w.packet := by
  have hpts : (∀ m ∈ (VideoStore.writePacket video s w).muxed, m.2.2 ≤ m.2.1) ↔
      ∀ m ∈ s.muxed, m.2.2 ≤ m.2.1 := by
    rw [writePacket_muxed, List.forall_mem_append, List.forall_mem_singleton]
    exact and_iff_left (fixPts_ge _ _)
  have hdts : (∀ last ∈ (s.dtsOf w.packet.streamIndex).getLast?, last < s.dts w.packet) ↔
      ¬s.Stalls w.packet := by
    rw [← h.lastDts]
    cases hlast : s.lastDts w.packet.streamIndex with
    | none =>
      refine iff_of_true nofun ?_
      rintro ⟨-, dts, -, last, hsome, -⟩
      rw [hlast] at hsome
      cases hsome
    | some last =>
      rw [← lt_dts_iff hlast (h.lastDuration _)]
      simp
  constructor
  · intro hvalid
    have hincreasing : ∀ stream, (s.dtsOf stream).Pairwise (· < ·) := by
      intro stream
      have hall := hvalid.increasing stream
      rw [writePacket_dtsOf] at hall
      exact (List.pairwise_append.mp hall).1
    refine ⟨⟨hincreasing, hpts.mp hvalid.presented⟩, ?_⟩
    have hall := hvalid.increasing w.packet.streamIndex
    rw [writePacket_dtsOf, if_pos rfl, pairwise_concat_iff (hincreasing _)] at hall
    exact hdts.mp hall
  · rintro ⟨hvalid, hstalls⟩
    refine ⟨fun stream ↦ ?_, hpts.mpr hvalid.presented⟩
    rw [writePacket_dtsOf]
    by_cases hstream : w.packet.streamIndex = stream
    · subst hstream
      rw [if_pos rfl, pairwise_concat_iff (hvalid.increasing _)]
      exact hdts.mpr hstalls
    · rw [if_neg hstream, List.append_nil]
      exact hvalid.increasing stream

theorem record_follows (hduration : ∀ w ∈ writes, 0 ≤ w.packet.duration) :
    Follows (record video offset writes) := by
  induction writes using List.reverseRecOn with
  | nil => exact ⟨fun _ ↦ rfl, fun _ ↦ le_rfl⟩
  | append_singleton writes w ih =>
    rw [record_snoc]
    exact (ih fun v hv ↦ hduration v (List.mem_append_left _ hv)).writePacket
      (hduration w (List.mem_append_right _ (List.mem_singleton_self w)))

/-- The muxer gets valid timestamps exactly where no packet goes back behind one without a
duration. -/
theorem muxed_valid_iff (hduration : ∀ w ∈ writes, 0 ≤ w.packet.duration) :
    (record video offset writes).Valid ↔ NeverStalls video offset writes := by
  induction writes using List.reverseRecOn with
  | nil => exact iff_of_true ⟨fun _ ↦ .nil, nofun⟩ along_nil
  | append_singleton writes w ih =>
    have hwrites : ∀ v ∈ writes, 0 ≤ v.packet.duration :=
      fun v hv ↦ hduration v (List.mem_append_left _ hv)
    rw [record_snoc, (record_follows hwrites).valid_iff, ih hwrites, NeverStalls, NeverStalls,
      along_concat]

/-- Audio with an undefined dts, and a video packet that goes back behind one that lasts. -/
theorem muxed_valid_backward :
    let video : Stream := ⟨0, 1, 90000⟩
    let audio : Write := ⟨⟨1, false, none, none, 0⟩, 0⟩
    let writes := [keyframe 3000 3000 1024, audio, keyframe 1000 0 41024, audio]
    NeverStalls video 1024 writes ∧ (record video 1024 writes).Valid := by
  intro video audio writes
  have hnever : NeverStalls video 1024 writes := along_iff_getElem.mpr (by decide)
  exact ⟨hnever, (muxed_valid_iff (by decide)).mpr hnever⟩

/-- A packet that goes back behind one without a duration is given the dts of that one again. -/
theorem muxed_not_valid :
    ¬∀ (video : Stream) (offset : ℤ) (writes : List Write),
      (∀ w ∈ writes, 0 ≤ w.packet.duration) → (record video offset writes).Valid := by
  intro h
  have hvalid := h ⟨0, 1, 90000⟩ 1024 [keyframe 3000 0 1024, keyframe 1000 0 41024] (by decide)
  have hdts : (record ⟨0, 1, 90000⟩ 1024
      [keyframe 3000 0 1024, keyframe 1000 0 41024]).dtsOf 0 = [3000, 3000] := by decide +kernel
  have hincreasing := hvalid.increasing 0
  rw [hdts] at hincreasing
  exact absurd hincreasing (by decide)

end ZoneMinder.VideoStore
