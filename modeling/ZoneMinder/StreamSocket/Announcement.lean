import Mathlib.Data.List.Pairwise
import ZoneMinder.StreamSocket.Framing

namespace ZoneMinder.StreamSocket

open Lib Function

namespace Message

def generation (m : Message) : ℕ := m.decoded.generation.toNat

def sequence (m : Message) : ℕ := m.decoded.sequence.toNat

def isHello (m : Message) (stream : UInt8) : Prop :=
  m.decoded.type = MessageType.hello.toByte ∧ m.decoded.stream = stream

def isMedia (m : Message) (stream : UInt8) : Prop :=
  (m.decoded.type = MessageType.media.toByte ∨ m.decoded.type = MessageType.keyframe.toByte) ∧
    m.decoded.stream = stream

end Message

/-- The announcement protocol as a consumer relies on it. -/
structure AnnouncementOrder (l : List Message) : Prop where
  covered : ∀ before m after, l = before ++ m :: after → ∀ stream, m.isMedia stream →
    (∃ h ∈ before, h.isHello stream ∧ h.generation = m.generation) ∧
    ∀ h ∈ before, ∀ stream', h.isHello stream' → h.generation ≤ m.generation
  once : l.Pairwise fun x y ↦ ∀ stream, x.isHello stream → y.isHello stream →
    x.generation ≠ y.generation
  audioFirst : l.Pairwise fun x y ↦ x.isHello StreamId.video.toByte →
    y.isHello StreamId.audio.toByte → x.generation ≠ y.generation
  generations : l.Pairwise fun x y ↦ x.generation ≤ y.generation
  sequences : l.Pairwise fun x y ↦ ∀ stream, x.isMedia stream → y.isMedia stream →
    x.generation = y.generation → x.sequence < y.sequence

theorem pairwise_snoc {R : Message → Message → Prop} {l : List Message} {m : Message}
    (h : l.Pairwise R) (hm : ∀ x ∈ l, R x m) : (l ++ [m]).Pairwise R :=
  List.pairwise_append.mpr ⟨h, List.pairwise_singleton R m,
    fun x hx y hy ↦ by rw [List.mem_singleton.mp hy]; exact hm x hx⟩

theorem AnnouncementOrder.snoc {l : List Message} {m : Message} (h : AnnouncementOrder l)
    (hgen : ∀ x ∈ l, x.generation ≤ m.generation)
    (honce : ∀ x ∈ l, ∀ stream, x.isHello stream → m.isHello stream →
      x.generation ≠ m.generation)
    (haudio : ∀ x ∈ l, x.isHello StreamId.video.toByte → m.isHello StreamId.audio.toByte →
      x.generation ≠ m.generation)
    (hcovered : ∀ stream, m.isMedia stream → ∃ x ∈ l, x.isHello stream ∧
      x.generation = m.generation)
    (hseq : ∀ x ∈ l, ∀ stream, x.isMedia stream → m.isMedia stream →
      x.generation = m.generation → x.sequence < m.sequence) :
    AnnouncementOrder (l ++ [m]) where
  covered before x after he stream hx := by
    rcases List.eq_nil_or_concat after with rfl | ⟨after, y, rfl⟩
    · obtain ⟨rfl, hm⟩ := List.append_inj' he rfl
      obtain rfl : m = x := by simpa using hm
      exact ⟨hcovered stream hx, fun y hy _ _ ↦ hgen y hy⟩
    · have he' : l ++ [m] = (before ++ x :: after) ++ [y] := by simpa using he
      exact h.covered before x after (List.append_inj' he' rfl).1 stream hx
  once := pairwise_snoc h.once honce
  audioFirst := pairwise_snoc h.audioFirst haudio
  generations := pairwise_snoc h.generations hgen
  sequences := pairwise_snoc h.sequences hseq

/-- Leaving out messages other than HELLOs keeps the protocol. -/
theorem AnnouncementOrder.thin {p : Message → Bool} {l l' : List Message}
    (h : AnnouncementOrder l) (hp : ∀ m ∈ l, ∀ stream, m.isHello stream → p m = true)
    (ht : Thins p l l') : AnnouncementOrder l' where
  covered before m after he stream hm := by
    rw [he] at ht
    obtain ⟨before', after', rfl, hb, -⟩ := ht.split
    obtain ⟨⟨x, hx, hhello⟩, hle⟩ := h.covered before' m after' rfl stream hm
    exact ⟨⟨x, hb.mem (hp x (List.mem_append_left _ hx) stream hhello.1) hx, hhello⟩,
      fun y hy ↦ hle y (hb.sublist.subset hy)⟩
  once := h.once.sublist ht.sublist
  audioFirst := h.audioFirst.sublist ht.sublist
  generations := h.generations.sublist ht.sublist
  sequences := h.sequences.sublist ht.sublist

/-- The messages enqueued for a client, seen from the producer's counters: generation
`g`, next sequence numbers `seq` and the streams announced in this generation. -/
structure Announced (g : ℕ) (seq : StreamId → ℕ) (live : StreamId → Prop) (l : List Message) :
    Prop where
  order : AnnouncementOrder l
  below : ∀ m ∈ l, m.generation ≤ g
  current : ∀ stream, live stream ↔ ∃ m ∈ l, m.isHello stream.toByte ∧ m.generation = g
  fresh : ∀ m ∈ l, ∀ stream : StreamId, m.isMedia stream.toByte → m.generation = g →
    m.sequence < seq stream

namespace Announced

variable {g g' : ℕ} {seq seq' : StreamId → ℕ} {live live' : StreamId → Prop} {l : List Message}
  {m : Message}

theorem nil : Announced g seq (fun _ ↦ False) [] where
  order := ⟨by simp, .nil, .nil, .nil, .nil⟩
  below := by simp
  current := by simp
  fresh := by simp

theorem congr (h : Announced g seq live l) (hl : ∀ stream, live stream ↔ live' stream) :
    Announced g seq live' l :=
  ⟨h.order, h.below, fun stream ↦ (hl stream).symm.trans (h.current stream), h.fresh⟩

theorem advance (h : Announced g seq live l) (hs : ∀ stream, seq stream ≤ seq' stream) :
    Announced g seq' live l :=
  ⟨h.order, h.below, h.current, fun m hm stream hx hg ↦
    lt_of_lt_of_le (h.fresh m hm stream hx hg) (hs stream)⟩

theorem exists_hello_snoc {b : UInt8} (hm : ¬m.isHello b) :
    (∃ x ∈ l ++ [m], x.isHello b ∧ x.generation = g) ↔ ∃ x ∈ l, x.isHello b ∧ x.generation = g := by
  constructor
  · rintro ⟨x, hx, hh⟩
    rcases List.mem_append.mp hx with hx | hx
    · exact ⟨x, hx, hh⟩
    · rw [List.mem_singleton.mp hx] at hh
      exact absurd hh.1 hm
  · rintro ⟨x, hx, hh⟩
    exact ⟨x, List.mem_append_left _ hx, hh⟩

theorem below_snoc (h : Announced g seq live l) (hg : m.generation = g) :
    ∀ x ∈ l ++ [m], x.generation ≤ g := by
  intro x hx
  rcases List.mem_append.mp hx with hx | hx
  · exact h.below x hx
  · rw [List.mem_singleton.mp hx, hg]

theorem fresh_snoc (h : Announced g seq live l)
    (hm : ∀ stream : StreamId, m.isMedia stream.toByte → m.sequence < seq stream) :
    ∀ x ∈ l ++ [m], ∀ stream : StreamId, x.isMedia stream.toByte → x.generation = g →
      x.sequence < seq stream := by
  intro x hx stream hxm he
  rcases List.mem_append.mp hx with hx | hx
  · exact h.fresh x hx stream hxm he
  · rw [List.mem_singleton.mp hx] at hxm ⊢
    exact hm stream hxm

theorem bump (h : Announced g seq live l) (hg : g < g') :
    Announced g' seq' (fun _ ↦ False) l where
  order := h.order
  below m hm := (h.below m hm).trans hg.le
  current stream := by
    refine ⟨False.elim, ?_⟩
    rintro ⟨m, hm, -, he⟩
    have := h.below m hm
    omega
  fresh m hm _ _ he := by
    have := h.below m hm
    omega

theorem other (h : Announced g seq live l) (hg : m.generation = g)
    (hhello : ∀ stream, ¬m.isHello stream) (hmedia : ∀ stream, ¬m.isMedia stream) :
    Announced g seq live (l ++ [m]) where
  order := h.order.snoc (fun x hx ↦ hg ▸ h.below x hx)
    (fun _ _ stream _ hm ↦ absurd hm (hhello stream)) (fun _ _ _ hm ↦ absurd hm (hhello _))
    (fun stream hm ↦ absurd hm (hmedia stream)) (fun _ _ stream _ hm ↦ absurd hm (hmedia stream))
  below := h.below_snoc hg
  current stream := (h.current stream).trans (exists_hello_snoc (hhello _)).symm
  fresh := h.fresh_snoc fun _ hm ↦ absurd hm (hmedia _)

theorem hello_not_media {a b : UInt8} (h : m.isHello a) : ¬m.isMedia b := by
  rintro ⟨hm | hm, -⟩ <;> exact absurd (h.1.symm.trans hm) (by decide)

theorem hello (h : Announced g seq live l) {stream : StreamId} (hm : m.isHello stream.toByte)
    (hg : m.generation = g) (hlive : ¬live stream) (hvideo : stream = .audio → ¬live .video) :
    Announced g seq (update live stream True) (l ++ [m]) where
  order := by
    have hstream : ∀ b, m.isHello b → b = stream.toByte := fun b hb ↦ hb.2.symm.trans hm.2
    refine h.order.snoc (fun x hx ↦ hg ▸ h.below x hx) ?_ ?_
      (fun b hb ↦ absurd hb (hello_not_media hm)) (fun _ _ b _ hb ↦ absurd hb (hello_not_media hm))
    · intro x hx b hxb hmb he
      rw [hstream b hmb] at hxb
      exact hlive ((h.current stream).mpr ⟨x, hx, hxb, he.trans hg⟩)
    · intro x hx hxv hma he
      have hs := StreamId.toByte_injective (hstream _ hma)
      exact hvideo hs.symm ((h.current .video).mpr ⟨x, hx, hxv, he.trans hg⟩)
  below := h.below_snoc hg
  current st := by
    by_cases hst : st = stream
    · subst hst
      rw [update_self]
      exact ⟨fun _ ↦ ⟨m, List.mem_append_right _ (List.mem_singleton_self m), hm, hg⟩,
        fun _ ↦ trivial⟩
    · rw [update_of_ne hst, h.current st, exists_hello_snoc]
      exact fun hb ↦ hst (StreamId.toByte_injective (hb.2.symm.trans hm.2))
  fresh := h.fresh_snoc fun st hx ↦ absurd hx (hello_not_media hm)

theorem media (h : Announced g seq live l) {stream : StreamId} (hm : m.isMedia stream.toByte)
    (hg : m.generation = g) (hlive : live stream) (hlt : m.sequence < seq stream)
    (hseq : ∀ x ∈ l, x.isMedia stream.toByte → x.generation = g → x.sequence < m.sequence) :
    Announced g seq live (l ++ [m]) where
  order := by
    have hstream : ∀ b, m.isMedia b → b = stream.toByte := fun b hb ↦ hb.2.symm.trans hm.2
    refine h.order.snoc (fun x hx ↦ hg ▸ h.below x hx)
      (fun _ _ b _ hb ↦ absurd hm (hello_not_media hb)) (fun _ _ _ hb ↦ absurd hm (hello_not_media hb))
      (fun b hb ↦ ?_) (fun x hx b hxb hmb he ↦ ?_)
    · rw [hstream b hb, hg]
      exact (h.current stream).mp hlive
    · rw [hstream b hmb] at hxb
      exact hseq x hx hxb (he.trans hg)
  below := h.below_snoc hg
  current st := (h.current st).trans (exists_hello_snoc fun hb ↦ hello_not_media hb hm).symm
  fresh := h.fresh_snoc fun st hx ↦ by
    rw [StreamId.toByte_injective (hx.2.symm.trans hm.2)]
    exact hlt

end Announced

end ZoneMinder.StreamSocket
