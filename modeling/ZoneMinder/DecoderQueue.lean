import Mathlib.Algebra.Order.Ring.Int
import Mathlib.Data.List.Nodup
import ZoneMinder.Lib.Run

namespace ZoneMinder.DecoderQueue

open Lib

/-- A packet; AV_NOPTS_VALUE is none. -/
structure ZMPacket where
  imageIndex : ℕ
  pts : Option ℤ
  deriving DecidableEq

def ZMPacket.earlier (packet : ZMPacket) (pts : ℤ) : Bool := packet.pts.any (decide <| · < pts)

/-- What MatchDecodedFrame leaves: the queue, where in it the entry it returns is (at its length for
`end()`), and the packets it has marked as decoded and erased. -/
structure Match where
  queue : List ZMPacket
  entry : ℕ
  released : List ZMPacket := []

def matchDecodedFrame (decoderQueue : List ZMPacket) (framePts : Option ℤ) : Match :=
  match framePts with
  | none => ⟨decoderQueue, 0, []⟩
  | some pts =>
    match decoderQueue.findIdx? fun packet ↦ packet.pts = some pts with
    | none =>
      if decoderQueue.all fun packet ↦ packet.pts.any (decide <| · > pts) then
        ⟨decoderQueue, decoderQueue.length, []⟩
      else ⟨decoderQueue, 0, []⟩
    | some i =>
      -- what is not earlier is a reference whose frame still has to come
      let kept := (decoderQueue.take i).filter (!·.earlier pts)
      ⟨kept ++ decoderQueue.drop i, kept.length, (decoderQueue.take i).filter (·.earlier pts)⟩

/-- `decoded` has the packets released without an image, `framed` those that got a frame, with its
pts. -/
structure Decoder where
  queue : List ZMPacket := []
  decoded : List ZMPacket := []
  framed : List (ZMPacket × Option ℤ) := []

inductive Op
  | send (packet : ZMPacket)
  /-- The codec returns a frame. -/
  | receive (pts : ℤ)

/-- The first phase of Decode when the codec returns a frame; it is not asked for one while the
queue is empty. -/
def Decoder.receive (s : Decoder) (framePts : Option ℤ) : Decoder :=
  if s.queue.isEmpty then s
  else
    let m := matchDecodedFrame s.queue framePts
    match m.queue[m.entry]? with
    | none => { s with queue := m.queue, decoded := s.decoded ++ m.released }
    | some packet =>
      { queue := m.queue.eraseIdx m.entry
        decoded := s.decoded ++ m.released
        framed := s.framed ++ [(packet, framePts)] }

def Decoder.step (s : Decoder) : Op → Decoder
  | .send packet => { s with queue := s.queue ++ [packet] }
  | .receive pts => s.receive (some pts)

def run (ops : List Op) : Decoder := ops.foldl Decoder.step {}

def Op.packet : Op → Option ZMPacket
  | .send packet => some packet
  | .receive _ => none

def Op.frame : Op → Option ℤ
  | .send _ => none
  | .receive pts => some pts

/-- The packets sent to the codec, in their order. -/
def sent (ops : List Op) : List ZMPacket := ops.filterMap Op.packet

/-- The frames that the codec returned. -/
def received (ops : List Op) : List ℤ := ops.filterMap Op.frame

/-- Packets with pts of their own, and a codec that returns frames in the order of their pts, each
of a packet that was sent before. -/
structure Codec (ops : List Op) : Prop where
  timed : ∀ packet ∈ sent ops, packet.pts.isSome
  distinct : ((sent ops).map ZMPacket.pts).Nodup
  increasing : (received ops).Pairwise (· < ·)
  decodes : Along (fun before op ↦ ∀ pts ∈ op.frame, ∃ packet ∈ sent before, packet.pts = some pts) ops

section

variable {s : Decoder} {ops : List Op} {op : Op} {packet d p : ZMPacket} {pts : ℤ}
  {queue : List ZMPacket}

theorem sent_append (ops ops' : List Op) : sent (ops ++ ops') = sent ops ++ sent ops' :=
  List.filterMap_append

theorem received_append (ops ops' : List Op) :
    received (ops ++ ops') = received ops ++ received ops' := List.filterMap_append

@[simp] theorem sent_send : sent (ops ++ [.send packet]) = sent ops ++ [packet] := by
  simp [sent, Op.packet]

@[simp] theorem sent_receive : sent (ops ++ [.receive pts]) = sent ops := by
  simp [sent, Op.packet]

@[simp] theorem received_send : received (ops ++ [.send packet]) = received ops := by
  simp [received, Op.frame]

@[simp] theorem received_receive : received (ops ++ [.receive pts]) = received ops ++ [pts] := by
  simp [received, Op.frame]

theorem earlier_iff : p.earlier pts = true ↔ ∃ t, p.pts = some t ∧ t < pts := by
  rw [ZMPacket.earlier, Option.any_eq_true]
  simp

theorem run_concat : run (ops ++ [op]) = (run ops).step op := List.foldl_append

theorem Codec.unique (h : Codec ops) (hd : d ∈ sent ops) (hp : p ∈ sent ops)
    (heq : d.pts = p.pts) : d = p := List.inj_on_of_nodup_map h.distinct hd hp heq

theorem Codec.nodup (h : Codec ops) : (sent ops).Nodup := h.distinct.of_map _

/-- What comes before the entry splits into what is released and what is kept. -/
theorem matchDecodedFrame_eq {front rest : List ZMPacket} (hp : p.pts = some pts)
    (hfront : ∀ d ∈ front, d.pts ≠ some pts) :
    matchDecodedFrame (front ++ p :: rest) (some pts) =
      ⟨front.filter (!·.earlier pts) ++ p :: rest, (front.filter (!·.earlier pts)).length,
        front.filter (·.earlier pts)⟩ := by
  have hfind : (front ++ p :: rest).findIdx? (fun packet ↦ packet.pts = some pts) =
      some front.length := by
    rw [List.findIdx?_append, List.findIdx?_eq_none_iff.mpr, List.findIdx?_cons]
    · simp [hp]
    · simpa using hfront
  simp [matchDecodedFrame, hfind]

/-- How the queue stands to what was sent and received. -/
structure Tracks (ops : List Op) (s : Decoder) : Prop where
  inOrder : s.queue.Sublist (sent ops)
  /-- A frame that can still come finds its packet. -/
  coming : ∀ p ∈ sent ops, (∀ f ∈ received ops, ∀ pts ∈ p.pts, f < pts) → p ∈ s.queue
  accounted : ∀ p ∈ sent ops, p ∈ s.queue ∨ p ∈ s.decoded ∨ ∃ f ∈ received ops, p.pts = some f
  released : ∀ d ∈ s.decoded, ∃ f ∈ received ops, ∀ pts ∈ d.pts, pts < f
  /-- Nothing is left that was passed by a frame. -/
  passed : ∀ d p, [d, p].Sublist (sent ops) → ∀ f ∈ received ops, p.pts = some f →
    (∀ pts ∈ d.pts, pts < f) → d ∉ s.queue

theorem Codec.of_concat (h : Codec (ops ++ [op])) : Codec ops where
  timed := fun p hp ↦ h.timed p (by rw [sent_append]; exact List.mem_append_left _ hp)
  distinct := by
    have hdistinct := h.distinct
    rw [sent_append, List.map_append] at hdistinct
    exact hdistinct.of_append_left
  increasing := by
    have hincreasing := h.increasing
    rw [received_append] at hincreasing
    exact (List.pairwise_append.mp hincreasing).1
  decodes := (along_concat.mp h.decodes).1

theorem Codec.received_sent (h : Codec ops) {f : ℤ} (hf : f ∈ received ops) :
    ∃ p ∈ sent ops, p.pts = some f := by
  obtain ⟨op, hop, hsome⟩ := List.mem_filterMap.mp hf
  cases op with
  | send packet => cases hsome
  | receive pts =>
    obtain rfl := Option.some.inj hsome
    obtain ⟨before, after, rfl⟩ := List.append_of_mem hop
    obtain ⟨p, hp, hpts⟩ := h.decodes before (.receive pts) ⟨after, by simp⟩ pts rfl
    refine ⟨p, ?_, hpts⟩
    rw [sent_append]
    exact List.mem_append_left _ hp

theorem pair_concat {l : List ZMPacket} (h : [d, p].Sublist (l ++ [packet])) :
    [d, p].Sublist l ∨ p = packet ∧ d ∈ l := by
  obtain ⟨l₁, l₂, heq, hl₁, hl₂⟩ := List.sublist_append_iff.mp h
  rcases List.sublist_singleton.mp hl₂ with rfl | rfl
  · rw [List.append_nil] at heq
    exact .inl (heq ▸ hl₁)
  · obtain ⟨rfl, hp⟩ := List.append_inj' (show [d] ++ [p] = l₁ ++ [packet] from heq) rfl
    exact .inr ⟨List.singleton_inj.mp hp, List.singleton_sublist.mp hl₁⟩

theorem not_pair_swap {l : List ZMPacket} (hl : l.Nodup) (h : [d, p].Sublist l) :
    ¬[p, d].Sublist l := by
  induction l with
  | nil => cases h
  | cons a l ih =>
    obtain ⟨ha, hl⟩ := List.nodup_cons.mp hl
    intro h'
    rcases List.sublist_cons_iff.mp h with hdp | ⟨r, hr, hp⟩
    · rcases List.sublist_cons_iff.mp h' with hpd | ⟨r, hr, -⟩
      · exact ih hl hdp hpd
      · have hpa := (List.cons.inj hr).1
        exact ha (hpa ▸ hdp.subset (List.mem_cons_of_mem _ (List.mem_singleton_self p)))
    · obtain ⟨hda, rfl⟩ := List.cons.inj hr
      have hpl := List.singleton_sublist.mp hp
      rcases List.sublist_cons_iff.mp h' with hpd | ⟨r, hr, -⟩
      · exact ha (hda ▸ hpd.subset (List.mem_cons_of_mem _ (List.mem_singleton_self d)))
      · exact ha ((List.cons.inj hr).1 ▸ hpl)

theorem Tracks.send (h : Tracks ops s) (hcodec : Codec (ops ++ [.send packet])) :
    Tracks (ops ++ [.send packet]) (s.step (.send packet)) := by
  have hnew : ∀ f ∈ received ops, packet.pts ≠ some f := by
    intro f hf heq
    obtain ⟨p, hp, hpts⟩ := hcodec.of_concat.received_sent hf
    have hdistinct := hcodec.distinct
    rw [sent_send, List.map_append, List.nodup_append] at hdistinct
    exact hdistinct.2.2 _ (List.mem_map_of_mem hp) _ (by simp) (hpts.trans heq.symm)
  constructor
  · rw [sent_send]
    exact h.inOrder.append (List.Sublist.refl _)
  · rw [sent_send, received_send]
    intro p hp hlt
    rcases List.mem_append.mp hp with hp | hp
    · exact List.mem_append_left _ (h.coming p hp hlt)
    · exact List.mem_append_right _ hp
  · rw [sent_send, received_send]
    intro p hp
    rcases List.mem_append.mp hp with hp | hp
    · rcases h.accounted p hp with hqueue | hrest
      · exact .inl (List.mem_append_left _ hqueue)
      · exact .inr hrest
    · exact .inl (List.mem_append_right _ hp)
  · rw [received_send]
    exact h.released
  · rw [sent_send, received_send]
    intro d p hdp f hf hpts hlt hd
    rcases pair_concat hdp with hdp | ⟨rfl, -⟩
    · rcases List.mem_append.mp hd with hd | hd
      · exact h.passed d p hdp f hf hpts hlt hd
      · have hnodup := hcodec.nodup
        rw [sent_send, List.nodup_append] at hnodup
        exact hnodup.2.2 d (hdp.subset (List.mem_cons_self ..)) packet (by simp)
          (List.mem_singleton.mp hd)
    · exact hnew f hf hpts

/-- The entry that a frame is for, among those of the queue. -/
structure Entry (s : Decoder) (pts : ℤ) (p : ZMPacket) (front rest : List ZMPacket) : Prop where
  queue : s.queue = front ++ p :: rest
  own : p.pts = some pts
  first : ∀ d ∈ front, d.pts ≠ some pts

theorem Tracks.entry (h : Tracks ops s) (hcodec : Codec (ops ++ [.receive pts])) :
    ∃ p ∈ sent ops, ∃ front rest, Entry s pts p front rest := by
  obtain ⟨p, hp, hpts⟩ := (along_concat.mp hcodec.decodes).2 pts rfl
  have hincreasing := hcodec.increasing
  rw [received_receive] at hincreasing
  have hqueue : p ∈ s.queue := by
    refine h.coming p hp fun f hf pts' hpts' ↦ ?_
    rw [hpts, Option.mem_some_iff] at hpts'
    exact hpts' ▸ (List.pairwise_append.mp hincreasing).2.2 f hf pts (List.mem_singleton_self pts)
  obtain ⟨front, rest, heq⟩ := List.append_of_mem hqueue
  refine ⟨p, hp, front, rest, heq, hpts, fun d hd hdpts ↦ ?_⟩
  have hnodup := hcodec.of_concat.nodup.sublist h.inOrder
  have hdqueue : d ∈ s.queue := heq ▸ List.mem_append_left _ hd
  obtain rfl := hcodec.of_concat.unique (h.inOrder.subset hdqueue) hp (hdpts.trans hpts.symm)
  rw [heq, List.nodup_append] at hnodup
  exact hnodup.2.2 d hd d (List.mem_cons_self ..) rfl

theorem Entry.receive {front rest : List ZMPacket} (h : Entry s pts p front rest) :
    s.receive (some pts) =
      { queue := front.filter (!·.earlier pts) ++ rest
        decoded := s.decoded ++ front.filter (·.earlier pts)
        framed := s.framed ++ [(p, some pts)] } := by
  have hne : s.queue.isEmpty = false := by
    rw [h.queue]
    cases front <;> rfl
  rw [Decoder.receive, hne, if_neg Bool.false_ne_true, h.queue, matchDecodedFrame_eq h.own h.first]
  simp [List.eraseIdx_append_of_length_le]

theorem Tracks.receive (h : Tracks ops s) (hcodec : Codec (ops ++ [.receive pts])) :
    Tracks (ops ++ [.receive pts]) (s.step (.receive pts)) := by
  obtain ⟨p, hp, front, rest, hentry⟩ := h.entry hcodec
  have hcodec' := hcodec.of_concat
  have hnodup := hcodec'.nodup
  have hinOrder := h.inOrder
  rw [hentry.queue] at hinOrder
  rw [Decoder.step, hentry.receive]
  constructor
  · rw [sent_receive]
    exact (List.filter_sublist.append (List.sublist_cons_self p rest)).trans hinOrder
  · rw [sent_receive, received_receive]
    intro q hq hlt
    have hq' := h.coming q hq fun f hf ↦ hlt f (List.mem_append_left _ hf)
    have hpts := hlt pts (List.mem_append_right _ (List.mem_singleton_self pts))
    rw [hentry.queue] at hq'
    rcases List.mem_append.mp hq' with hfront | hrest
    · refine List.mem_append_left _ (List.mem_filter.mpr ⟨hfront, ?_⟩)
      rw [Bool.not_eq_true', Bool.eq_false_iff, ne_eq, earlier_iff]
      rintro ⟨t, ht, hearly⟩
      exact lt_asymm hearly (hpts t ht)
    · rcases List.mem_cons.mp hrest with rfl | hrest
      · exact absurd (hpts pts hentry.own) (lt_irrefl pts)
      · exact List.mem_append_right _ hrest
  · rw [sent_receive, received_receive]
    intro q hq
    rcases h.accounted q hq with hqueue | hdecoded | ⟨f, hf, hqf⟩
    · rw [hentry.queue] at hqueue
      rcases List.mem_append.mp hqueue with hfront | hrest
      · cases hearly : q.earlier pts with
        | false => exact .inl (List.mem_append_left _ (List.mem_filter.mpr ⟨hfront, by simp [hearly]⟩))
        | true => exact .inr (.inl (List.mem_append_right _ (List.mem_filter.mpr ⟨hfront, hearly⟩)))
      · rcases List.mem_cons.mp hrest with rfl | hrest
        · exact .inr (.inr ⟨pts, List.mem_append_right _ (List.mem_singleton_self pts), hentry.own⟩)
        · exact .inl (List.mem_append_right _ hrest)
    · exact .inr (.inl (List.mem_append_left _ hdecoded))
    · exact .inr (.inr ⟨f, List.mem_append_left _ hf, hqf⟩)
  · rw [received_receive]
    intro d hd
    rcases List.mem_append.mp hd with hd | hd
    · obtain ⟨f, hf, hlt⟩ := h.released d hd
      exact ⟨f, List.mem_append_left _ hf, hlt⟩
    · refine ⟨pts, List.mem_append_right _ (List.mem_singleton_self pts), fun pts' hpts' ↦ ?_⟩
      obtain ⟨t, ht, hlt⟩ := earlier_iff.mp (List.mem_filter.mp hd).2
      rw [ht, Option.mem_some_iff] at hpts'
      exact hpts' ▸ hlt
  · rw [sent_receive, received_receive]
    intro d q hdq f hf hqf hlt hd
    have hdqueue : d ∈ s.queue := by
      rw [hentry.queue]
      exact (List.filter_sublist.append (List.sublist_cons_self p rest)).subset hd
    rcases List.mem_append.mp hf with hf | hf
    · exact h.passed d q hdq f hf hqf hlt hdqueue
    · obtain rfl := List.mem_singleton.mp hf
      obtain rfl := hcodec'.unique (hdq.subset (List.mem_cons_of_mem _ (List.mem_singleton_self q)))
        hp (hqf.trans hentry.own.symm)
      obtain ⟨t, ht⟩ := Option.isSome_iff_exists.mp
        (hcodec'.timed d (hdq.subset (List.mem_cons_self ..)))
      rcases List.mem_append.mp hd with hfront | hrest
      · have hearly := (List.mem_filter.mp hfront).2
        rw [Bool.not_eq_true', Bool.eq_false_iff, ne_eq, earlier_iff] at hearly
        exact hearly ⟨t, ht, hlt t ht⟩
      · -- in the queue, and so among the packets sent, `d` stands behind the frame's packet
        have hqd : [q, d].Sublist (sent ops) :=
          ((List.singleton_sublist.mpr hrest).cons_cons q |>.trans
            (List.sublist_append_right front _)).trans hinOrder
        exact not_pair_swap hnodup hdq hqd

theorem run_tracks (h : Codec ops) : Tracks ops (run ops) := by
  induction ops using List.reverseRecOn with
  | nil => exact ⟨.slnil, nofun, nofun, nofun, fun _ _ _ _ hf ↦ nomatch hf⟩
  | append_singleton ops op ih =>
    rw [run_concat]
    cases op with
    | send packet => exact (ih h.of_concat).send h
    | receive pts => exact (ih h.of_concat).receive h

theorem Codec.of_prefix {before after : List Op} (h : Codec (before ++ after)) : Codec before := by
  induction after using List.reverseRecOn with
  | nil => rwa [List.append_nil] at h
  | append_singleton after op ih =>
    rw [← List.append_assoc] at h
    exact ih h.of_concat

/-- A frame finds the packet it was decoded from. With it go the packets that it passes, and none
whose frame still comes. -/
theorem frames_paired {before after : List Op} (h : Codec (before ++ .receive pts :: after)) :
    let s := run before
    let m := matchDecodedFrame s.queue (some pts)
    let s' := run (before ++ [.receive pts])
    (∃ p ∈ sent before, p.pts = some pts ∧ m.queue[m.entry]? = some p ∧
      s'.framed = s.framed ++ [(p, some pts)]) ∧
    (∀ d ∈ m.released, ∀ f ∈ received after, d.pts ≠ some f) ∧
    (m.queue.Sublist s.queue ∧ ∀ d ∈ s.queue, d ∈ m.queue ∨ d ∈ m.released) ∧
    ∀ d p, [d, p].Sublist (sent before) → p.pts = some pts → (∀ t ∈ d.pts, t < pts) →
      (∀ f ∈ received (before ++ .receive pts :: after), d.pts ≠ some f) →
      d ∈ s'.decoded ∧ d ∉ s'.queue := by
  intro s m s'
  have hops : before ++ .receive pts :: after = (before ++ [.receive pts]) ++ after := by simp
  rw [hops] at h ⊢
  have hcodec := h.of_prefix
  have htracks := run_tracks hcodec.of_concat
  have htracks' := run_tracks hcodec
  obtain ⟨p, hp, front, rest, hentry⟩ := htracks.entry hcodec
  have hm : m = _ := (congrArg (matchDecodedFrame · (some pts)) hentry.queue).trans
    (matchDecodedFrame_eq hentry.own hentry.first)
  have hs' : s' = _ := run_concat.trans hentry.receive
  refine ⟨⟨p, hp, hentry.own, ?_, ?_⟩, ?_, ⟨?_, ?_⟩, ?_⟩
  · rw [hm]
    simp
  · rw [hs']
  · rw [hm]
    intro d hd f hf hpts
    obtain ⟨t, ht, hlt⟩ := earlier_iff.mp (List.mem_filter.mp hd).2
    obtain rfl := Option.some.inj (ht.symm.trans hpts)
    have hincreasing := h.increasing
    rw [received_append, received_receive, List.pairwise_append] at hincreasing
    exact lt_asymm hlt (hincreasing.2.2 pts (by simp) t hf)
  · rw [hm, hentry.queue]
    exact List.filter_sublist.append (List.Sublist.refl _)
  · rw [hm, hentry.queue]
    intro d hd
    rcases List.mem_append.mp hd with hd | hd
    · cases hearly : d.earlier pts with
      | false => exact .inl (List.mem_append_left _ (List.mem_filter.mpr ⟨hd, by simp [hearly]⟩))
      | true => exact .inr (List.mem_filter.mpr ⟨hd, hearly⟩)
    · exact .inl (List.mem_append_right _ hd)
  · intro d q hdq hq hlt hdropped
    have hsent : d ∈ sent (before ++ [.receive pts]) := by
      rw [sent_receive]
      exact hdq.subset (List.mem_cons_self ..)
    have hgone : d ∉ s'.queue := by
      refine htracks'.passed d q ?_ pts (by simp) hq hlt
      rwa [sent_receive]
    refine ⟨?_, hgone⟩
    rcases htracks'.accounted d hsent with hqueue | hdecoded | ⟨f, hf, hpts⟩
    · exact absurd hqueue hgone
    · exact hdecoded
    · exact absurd hpts (hdropped f (by rw [received_append]; exact List.mem_append_left _ hf))

/-- Packets sent as I P B B; the first B is lost, and its entry goes with the frame of the second. -/
theorem frames_paired_lost :
    let ops : List Op := [.send ⟨1, some 0⟩, .send ⟨2, some 3⟩, .receive 0, .send ⟨3, some 1⟩,
      .send ⟨4, some 2⟩]
    let s' := run (ops ++ [.receive 2])
    s'.framed = [(⟨1, some 0⟩, some 0), (⟨4, some 2⟩, some 2)] ∧ ⟨3, some 1⟩ ∈ s'.decoded ∧
      s'.queue = [⟨2, some 3⟩] := by
  intro ops s'
  have hcodec : Codec (ops ++ .receive 2 :: [.receive 3]) :=
    ⟨by decide, by decide, by decide, along_iff_getElem.mpr (by decide)⟩
  obtain ⟨-, -, -, hreleased⟩ := frames_paired hcodec
  refine ⟨by decide, ?_, by decide⟩
  exact (hreleased ⟨3, some 1⟩ ⟨4, some 2⟩ (by decide) rfl (by decide) (by decide)).1

end

end ZoneMinder.DecoderQueue
