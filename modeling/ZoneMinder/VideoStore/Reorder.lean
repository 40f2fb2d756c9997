import Mathlib.Algebra.Order.Ring.Int
import Mathlib.Data.List.Sort
import Mathlib.Logic.Function.Basic
import ZoneMinder.Lib.Reorder

namespace ZoneMinder.VideoStore

open Lib

inductive CodecType
  | video | audio | other
  deriving DecidableEq

/-- A packet to be written; AV_NOPTS_VALUE is none. -/
structure ZMPacket where
  imageIndex : ℕ
  codecType : CodecType
  dts : Option ℤ
  deriving DecidableEq

/-- The indexes of `video_out_stream` and `audio_out_stream`. -/
structure OutStreams where
  video : ℤ
  audio : Option ℤ
  distinct : audio ≠ some video

def OutStreams.index (streams : OutStreams) : CodecType → Option ℤ
  | .video => some streams.video
  | .audio => streams.audio
  | .other => none

/-- The keys of `reorder_queues`, in the order of the map. -/
def OutStreams.indexes (streams : OutStreams) : List ℤ :=
  (streams.video :: streams.audio.toList).insertionSort (· ≤ ·)

/-- `handed` has the packets given to writeVideoFramePacket and writeAudioFramePacket. -/
structure Reorder where
  queues : ℤ → List ZMPacket := fun _ ↦ []
  handed : List ZMPacket := []
  pb : Bool := true
  finalized : Bool := false

/-- Whether a queued packet has to come after a new one. -/
def later (packet queued : ZMPacket) : Bool :=
  match packet.dts, queued.dts with
  | some dts, some dts' => decide (dts' > dts)
  | _, _ => false

namespace Reorder

/-- `written` is what writeVideoFramePacket and writeAudioFramePacket return. -/
def writePacket (streams : OutStreams) (reorderQueueSize : ℕ) (written : ZMPacket → ℤ)
    (s : Reorder) (packet : ZMPacket) : ℤ × Reorder :=
  match streams.index packet.codecType with
  | none => (if packet.codecType = .audio then 0 else -1, s)
  | some index =>
    let queue := insertBack later packet (s.queues index)
    if reorderQueueSize < queue.length then
      (queue.head?.elim 0 written,
        { s with
          queues := Function.update s.queues index queue.tail
          handed := s.handed ++ queue.head?.toList })
    else (0, { s with queues := Function.update s.queues index queue })

/-- As far as the end of the reorder queues. -/
def finalize (streams : OutStreams) (s : Reorder) : Reorder :=
  if s.finalized then s
  else
    let s := { s with finalized := true }
    if !s.pb then s
    else
      { s with
        queues := fun _ ↦ []
        handed := s.handed ++ streams.indexes.flatMap s.queues }

def writePackets (streams : OutStreams) (reorderQueueSize : ℕ) (written : ZMPacket → ℤ)
    (packets : List ZMPacket) : Reorder :=
  packets.foldl (fun s packet ↦ (s.writePacket streams reorderQueueSize written packet).2) {}

end Reorder

def OutStreams.packets (streams : OutStreams) (index : ℤ) (packets : List ZMPacket) :
    List ZMPacket :=
  packets.filter fun packet ↦ streams.index packet.codecType = some index

variable {streams : OutStreams} {size : ℕ} {written : ZMPacket → ℤ} {packets : List ZMPacket}
  {packet : ZMPacket} {s : Reorder} {index : ℤ}

theorem mem_indexes : index ∈ streams.indexes ↔ ∃ t, streams.index t = some index := by
  rw [OutStreams.indexes, List.mem_insertionSort, List.mem_cons, Option.mem_toList]
  constructor
  · rintro (rfl | h)
    · exact ⟨.video, rfl⟩
    · exact ⟨.audio, h⟩
  · rintro ⟨t, ht⟩
    cases t with
    | video => exact .inl (Option.some.inj ht).symm
    | audio => exact .inr ht
    | other => cases ht

theorem nodup_indexes (streams : OutStreams) : streams.indexes.Nodup := by
  rw [OutStreams.indexes, (List.perm_insertionSort _ _).nodup_iff]
  cases haudio : streams.audio with
  | none => simp
  | some audio =>
    have hne : audio ≠ streams.video := fun h ↦ streams.distinct (h ▸ haudio)
    simpa using hne.symm

theorem mem_packets : packet ∈ streams.packets index packets ↔
    packet ∈ packets ∧ streams.index packet.codecType = some index := by
  rw [OutStreams.packets, List.mem_filter, decide_eq_true_eq]

theorem packets_append (l l' : List ZMPacket) :
    streams.packets index (l ++ l') = streams.packets index l ++ streams.packets index l' :=
  List.filter_append ..

theorem packets_concat : streams.packets index (packets ++ [packet]) =
    streams.packets index packets ++
      if streams.index packet.codecType = some index then [packet] else [] := by
  rw [packets_append]
  by_cases h : streams.index packet.codecType = some index
  · simp [OutStreams.packets, h]
  · simp [OutStreams.packets, h]

/-- Each queue delays the packets of its stream. -/
structure Reorder.Delays (streams : OutStreams) (size : ℕ) (packets : List ZMPacket) (s : Reorder) :
    Prop where
  queue : ∀ index, s.queues index = (delay later size (streams.packets index packets)).queue
  handed : ∀ index, streams.packets index s.handed =
    (delay later size (streams.packets index packets)).handed
  indexed : ∀ p ∈ s.handed, (streams.index p.codecType).isSome

theorem Reorder.Delays.index_queue (h : s.Delays streams size packets)
    (hpacket : packet ∈ s.queues index) : streams.index packet.codecType = some index := by
  rw [h.queue] at hpacket
  exact (mem_packets.mp ((delay_perm later size (streams.packets index packets)).mem_iff.mp
    (List.mem_append_right _ hpacket))).2

theorem packets_head {queue : List ZMPacket} {i : ℤ}
    (hqueue : ∀ p ∈ queue, streams.index p.codecType = some i) :
    streams.packets index queue.head?.toList = if i = index then queue.head?.toList else [] := by
  cases queue with
  | nil => simp [OutStreams.packets]
  | cons front rest =>
    have hfront := hqueue front (List.mem_cons_self ..)
    by_cases hi : i = index
    · simp [OutStreams.packets, hfront, hi]
    · simp [OutStreams.packets, hfront, hi]

theorem Reorder.Delays.writePacket (h : s.Delays streams size packets)
    (hindex : (streams.index packet.codecType).isSome) :
    (s.writePacket streams size written packet).2.Delays streams size (packets ++ [packet]) := by
  obtain ⟨i, hi⟩ := Option.isSome_iff_exists.mp hindex
  have hqueue : ∀ p ∈ insertBack later packet (s.queues i), streams.index p.codecType = some i := by
    intro p hp
    rcases List.mem_cons.mp ((insertBack_perm ..).mem_iff.mp hp) with rfl | hp
    · exact hi
    · exact h.index_queue hp
  rw [Reorder.writePacket, hi]
  dsimp only
  constructor
  · intro index
    rw [packets_concat, hi]
    by_cases heq : i = index
    · subst heq
      rw [if_pos rfl, delay_concat, Delayed.push, ← h.queue]
      split
      · exact Function.update_self ..
      · exact Function.update_self ..
    · rw [if_neg (fun hsome ↦ heq (Option.some.inj hsome)), List.append_nil, ← h.queue]
      split
      · exact Function.update_of_ne (Ne.symm heq) ..
      · exact Function.update_of_ne (Ne.symm heq) ..
  · intro index
    rw [packets_concat, hi]
    by_cases heq : i = index
    · subst heq
      rw [if_pos rfl, delay_concat, Delayed.push, ← h.queue]
      split
      · dsimp only
        rw [packets_append, packets_head hqueue, if_pos rfl, h.handed]
      · exact h.handed i
    · rw [if_neg (fun hsome ↦ heq (Option.some.inj hsome)), List.append_nil, ← h.handed]
      split
      · dsimp only
        rw [packets_append, packets_head hqueue, if_neg heq, List.append_nil]
      · rfl
  · split
    · intro p hp
      rcases List.mem_append.mp hp with hp | hp
      · exact h.indexed p hp
      · rw [hqueue p (List.mem_of_mem_head? (Option.mem_toList.mp hp)), Option.isSome_some]
    · exact h.indexed

theorem Reorder.writePacket_pb : (s.writePacket streams size written packet).2.pb = s.pb ∧
    (s.writePacket streams size written packet).2.finalized = s.finalized := by
  rw [Reorder.writePacket]
  split
  · exact ⟨rfl, rfl⟩
  · dsimp only
    split
    · exact ⟨rfl, rfl⟩
    · exact ⟨rfl, rfl⟩

theorem Reorder.writePackets_delays (hindex : ∀ p ∈ packets, (streams.index p.codecType).isSome) :
    let s := Reorder.writePackets streams size written packets
    s.Delays streams size packets ∧ s.pb = true ∧ s.finalized = false := by
  induction packets using List.reverseRecOn with
  | nil => exact ⟨⟨fun _ ↦ rfl, fun _ ↦ rfl, nofun⟩, rfl, rfl⟩
  | append_singleton packets packet ih =>
    obtain ⟨hdelays, hpb, hfinalized⟩ := ih fun p hp ↦ hindex p (List.mem_append_left _ hp)
    have hlast := hindex packet (List.mem_append_right _ (List.mem_singleton_self packet))
    have hsame := @Reorder.writePacket_pb streams size written packet
      (Reorder.writePackets streams size written packets)
    rw [Reorder.writePackets, List.foldl_append]
    exact ⟨hdelays.writePacket hlast, hsame.1.trans hpb, hsame.2.trans hfinalized⟩

theorem packets_flatMap {queues : ℤ → List ZMPacket} {indexes : List ℤ}
    (hqueues : ∀ i, ∀ p ∈ queues i, streams.index p.codecType = some i) (hnodup : indexes.Nodup) :
    streams.packets index (indexes.flatMap queues) =
      if index ∈ indexes then queues index else [] := by
  induction indexes with
  | nil => simp [OutStreams.packets]
  | cons i indexes ih =>
    obtain ⟨hi, hnodup⟩ := List.nodup_cons.mp hnodup
    rw [List.flatMap_cons, packets_append, ih hnodup]
    by_cases heq : index = i
    · subst heq
      have hall : streams.packets index (queues index) = queues index :=
        List.filter_eq_self.mpr fun p hp ↦ decide_eq_true (hqueues index p hp)
      rw [hall, if_neg hi, if_pos (List.mem_cons_self ..), List.append_nil]
    · have hnone : streams.packets index (queues i) = [] := by
        rw [OutStreams.packets, List.filter_eq_nil_iff]
        intro p hp
        rw [hqueues i p hp]
        simpa using Ne.symm heq
      simp only [hnone, List.nil_append, List.mem_cons, heq, false_or]

/-- With the end of the queues all packets of a stream have been handed on, delayed. -/
theorem Reorder.finalize_handed (hindex : ∀ p ∈ packets, (streams.index p.codecType).isSome) :
    let s := (Reorder.writePackets streams size written packets).finalize streams
    (∀ index, streams.packets index s.handed =
      (delay later size (streams.packets index packets)).all) ∧
    ∀ p ∈ s.handed, (streams.index p.codecType).isSome := by
  obtain ⟨hdelays, hpb, hfinalized⟩ :=
    @Reorder.writePackets_delays streams size written packets hindex
  have hqueues : ∀ i, ∀ p ∈ (Reorder.writePackets streams size written packets).queues i,
      streams.index p.codecType = some i := fun i p hp ↦ hdelays.index_queue hp
  rw [Reorder.finalize, if_neg (by rw [hfinalized]; decide)]
  dsimp only
  rw [if_neg (by rw [hpb]; decide)]
  dsimp only
  constructor
  · intro index
    rw [packets_append, hdelays.handed, packets_flatMap hqueues (nodup_indexes streams), Delayed.all]
    split
    · rw [hdelays.queue]
    · next hnone =>
      have hempty : streams.packets index packets = [] := by
        rw [List.eq_nil_iff_forall_not_mem]
        intro p hp
        exact hnone (mem_indexes.mpr ⟨_, (mem_packets.mp hp).2⟩)
      rw [hempty]
      rfl
  · intro p hp
    rcases List.mem_append.mp hp with hp | hp
    · exact hdelays.indexed p hp
    · obtain ⟨i, -, hp⟩ := List.mem_flatMap.mp hp
      rw [hqueues i p hp, Option.isSome_some]

theorem perm_of_packets {l l' : List ZMPacket}
    (hl : ∀ p ∈ l, (streams.index p.codecType).isSome)
    (hl' : ∀ p ∈ l', (streams.index p.codecType).isSome)
    (h : ∀ index, (streams.packets index l).Perm (streams.packets index l')) : l.Perm l' := by
  rw [List.perm_iff_count]
  intro p
  by_cases hp : (streams.index p.codecType).isSome
  · obtain ⟨i, hi⟩ := Option.isSome_iff_exists.mp hp
    have hcount := (h i).count_eq p
    rwa [OutStreams.packets, OutStreams.packets, List.count_filter (by simp [hi]),
      List.count_filter (by simp [hi])] at hcount
  · rw [List.count_eq_zero.mpr fun hmem ↦ hp (hl p hmem),
      List.count_eq_zero.mpr fun hmem ↦ hp (hl' p hmem)]

/-- No packet gets lost, and a stream whose packets are late behind no more than the size of the
queue is sorted by dts. -/
theorem reorder_sorts (streams : OutStreams) (size : ℕ) (written : ZMPacket → ℤ)
    (packets : List ZMPacket) (hindex : ∀ p ∈ packets, (streams.index p.codecType).isSome) :
    let handed := ((Reorder.writePackets streams size written packets).finalize streams).handed
    handed.Perm packets ∧
    ∀ index, (∀ p ∈ streams.packets index packets, p.dts.isSome) →
      Along (fun before p ↦ before.countP (later p) ≤ size) (streams.packets index packets) →
      streams.packets index handed =
        (streams.packets index packets).mergeSort fun p q ↦ decide (p.dts.getD 0 ≤ q.dts.getD 0) := by
  obtain ⟨hhanded, hindexed⟩ := @Reorder.finalize_handed streams size written packets hindex
  constructor
  · refine perm_of_packets hindexed hindex fun index ↦ ?_
    rw [hhanded]
    exact delay_perm later size _
  · intro index hdts hlate
    have hlater : ∀ p ∈ streams.packets index packets, ∀ q ∈ streams.packets index packets,
        later p q = decide (p.dts.getD 0 < q.dts.getD 0) := by
      intro p hp q hq
      obtain ⟨dts, hdts₁⟩ := Option.isSome_iff_exists.mp (hdts p hp)
      obtain ⟨dts', hdts₂⟩ := Option.isSome_iff_exists.mp (hdts q hq)
      rw [later, hdts₁, hdts₂]
      rfl
    rw [hhanded, delay_congr hlater]
    refine (delay_sorts ?_).eq_mergeSort
    intro before p hbefore
    have hp := hbefore.subset (List.mem_append_right before (List.mem_singleton_self p))
    have hcount : before.countP (fun q ↦ decide (p.dts.getD 0 < q.dts.getD 0)) =
        before.countP (later p) := by
      refine List.countP_congr fun q hq ↦ ?_
      rw [hlater p hp q (hbefore.subset (List.mem_append_left _ hq))]
    rw [hcount]
    exact hlate before p hbefore

/-- Audio between video frames of which one is two late. -/
theorem reorder_sorts_late :
    let streams : OutStreams := ⟨0, some 1, by decide⟩
    let audio : ZMPacket := ⟨4, .audio, none⟩
    let packets : List ZMPacket :=
      [⟨1, .video, some 3000⟩, ⟨2, .video, some 9000⟩, ⟨3, .video, some 6000⟩, audio,
        ⟨5, .video, some 3000⟩]
    let handed := ((Reorder.writePackets streams 2 (fun _ ↦ 1) packets).finalize streams).handed
    handed.Perm packets ∧
      streams.packets 0 handed = (streams.packets 0 packets).mergeSort
        fun p q ↦ decide (p.dts.getD 0 ≤ q.dts.getD 0) := by
  intro streams audio packets
  obtain ⟨hperm, hsort⟩ := reorder_sorts streams 2 (fun _ ↦ 1) packets (by decide)
  exact ⟨hperm, hsort 0 (by decide) (by decide)⟩

end ZoneMinder.VideoStore
