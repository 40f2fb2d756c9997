import ZoneMinder.StreamSocket.Announcement

namespace ZoneMinder.StreamSocket

open Lib Function

section Messages

variable (generation : UInt32) (type : MessageType) (stream : StreamId) (flags : UInt8)
  (sequence : UInt32) (ptsUs : Int64) (payload : Bytes) (control : Bool)

@[simp] theorem generation_makeMessage :
    (makeMessage generation type stream flags sequence ptsUs payload control).generation =
      generation.toNat := by
  rw [Message.generation, makeMessage, decoded_frame]

@[simp] theorem sequence_makeMessage :
    (makeMessage generation type stream flags sequence ptsUs payload control).sequence =
      sequence.toNat := by
  rw [Message.sequence, makeMessage, decoded_frame]

@[simp] theorem isHello_makeMessage (b : UInt8) :
    (makeMessage generation type stream flags sequence ptsUs payload control).isHello b ↔
      type = .hello ∧ stream.toByte = b := by
  rw [Message.isHello, makeMessage, decoded_frame]
  exact and_congr_left fun _ ↦ MessageType.toByte_injective.eq_iff

@[simp] theorem isMedia_makeMessage (b : UInt8) :
    (makeMessage generation type stream flags sequence ptsUs payload control).isMedia b ↔
      (type = .media ∨ type = .keyframe) ∧ stream.toByte = b := by
  rw [Message.isMedia, makeMessage, decoded_frame]
  exact and_congr_left fun _ ↦
    or_congr MessageType.toByte_injective.eq_iff MessageType.toByte_injective.eq_iff

end Messages

namespace Socket

def live (s : Socket) (stream : StreamId) : Prop := s.helloPayload stream ≠ []

def next (s : Socket) (stream : StreamId) : ℕ := (s.sequence stream).toNat

def Speaks (s : Socket) (live : StreamId → Prop) : Prop :=
  ∀ c ∈ s.connections, Announced s.generation.toNat s.next live c.enqueued

/-- The HELLO kept for late joiners is the current one. -/
def HelloKept (s : Socket) (stream : StreamId) : Prop :=
  (¬s.live stream → s.hello stream = none) ∧
  (s.live stream → ∃ m, s.hello stream = some m ∧ m.isHello stream.toByte ∧
    m.generation = s.generation.toNat)

/-- What links the producer's state to the messages every client was sent. -/
structure Consistent (s : Socket) : Prop where
  speaks : s.Speaks s.live
  hello : ∀ stream, s.HelloKept stream
  monitor : ¬s.live .monitor
  keyframe : ∀ m, s.keyframe = some m → m.isMedia StreamId.video.toByte ∧
    m.generation = s.generation.toNat ∧ m.sequence < s.next .video ∧ s.live .video

/-- No counter wraps between two states: the generation does not fall, and within one
generation no sequence number does. -/
def CountersKept (s s' : Socket) : Prop :=
  s.generation ≤ s'.generation ∧ (s'.generation = s.generation →
    s.sequence .video ≤ s'.sequence .video ∧ s.sequence .audio ≤ s'.sequence .audio)

instance (s s' : Socket) : Decidable (CountersKept s s') :=
  inferInstanceAs (Decidable (_ ∧ (_ → _ ∧ _)))

end Socket

open Socket

theorem toNat_succ {a : UInt32} (h : a ≤ a + 1) : (a + 1).toNat = a.toNat + 1 := by
  have ha := a.toNat_lt
  have hle := UInt32.le_iff_toNat_le.mp h
  rw [UInt32.toNat_add, UInt32.toNat_one] at hle ⊢
  omega

variable {cfg : Config} {codecName : UInt32 → Bytes} {s : Socket}

theorem broadcast_speaks {live' : StreamId → Prop} {m : Message} {s' : Socket}
    (hs : s'.connections = s.connections) (h : ∀ c ∈ s.connections,
      Announced s'.generation.toNat s'.next live' (c.enqueued ++ [m])) :
    (broadcastLocked cfg m s').Speaks live' := by
  intro c hc
  obtain ⟨c, hc', rfl⟩ := List.mem_map.mp hc
  rw [hs] at hc'
  exact h c hc'

section Announce

variable (cfg) (stream : StreamId) (again : Bool)

@[simp] theorem announce_generation : (announce cfg stream again s).generation = s.generation := by
  unfold announce
  split <;> [rfl; split <;> rfl]

@[simp] theorem announce_helloPayload :
    (announce cfg stream again s).helloPayload = s.helloPayload := by
  unfold announce
  split <;> [rfl; split <;> rfl]

@[simp] theorem announce_keyframe : (announce cfg stream again s).keyframe = s.keyframe := by
  unfold announce
  split <;> [rfl; split <;> rfl]

theorem announce_live (st : StreamId) : (announce cfg stream again s).live st ↔ s.live st := by
  simp [live]

theorem announce_speaks {live : StreamId → Prop} (h : s.Speaks live)
    (hgone : ¬s.live stream → ¬live stream)
    (hagain : s.live stream → again = true →
      ¬live stream ∧ (stream = .audio → ¬live .video))
    (hkeep : s.live stream → again = false → live stream) :
    (announce cfg stream again s).Speaks (update live stream (s.live stream)) := by
  have hsame (hl : live stream ↔ s.live stream) :
      ∀ c ∈ s.connections, Announced s.generation.toNat s.next
        (update live stream (s.live stream)) c.enqueued := by
    intro c hc
    refine (h c hc).congr fun st ↦ ?_
    by_cases hst : st = stream
    · subst hst
      rw [update_self, hl]
    · rw [update_of_ne hst]
  unfold announce
  split
  · next hp =>
    exact hsame (iff_of_false (hgone fun hl ↦ hl hp) fun hl ↦ hl hp)
  · next hp =>
    cases again with
    | false => exact hsame (iff_of_true (hkeep hp rfl) hp)
    | true =>
      obtain ⟨hlive, hvideo⟩ := hagain hp rfl
      rw [if_pos rfl]
      refine broadcast_speaks rfl fun c hc ↦ ?_
      refine ((h c hc).hello (by simp) (by simp) hlive hvideo).congr fun st ↦ ?_
      by_cases hst : st = stream
      · subst hst
        rw [update_self, update_self]
        exact (iff_of_true trivial hp)
      · rw [update_of_ne hst, update_of_ne hst]

theorem announce_hello (hkeep : s.live stream → again = false → s.HelloKept stream) :
    (announce cfg stream again s).HelloKept stream := by
  unfold announce
  split
  · next hp => exact ⟨fun _ ↦ update_self .., fun hl ↦ absurd hp hl⟩
  · next hp =>
    cases again with
    | false => exact hkeep hp rfl
    | true =>
      rw [if_pos rfl]
      exact ⟨fun hl ↦ absurd hp hl, fun _ ↦ ⟨_, update_self .., by simp, by simp [broadcastLocked]⟩⟩

theorem announce_hello_other {st : StreamId} (hst : st ≠ stream) (h : s.HelloKept st) :
    (announce cfg stream again s).HelloKept st := by
  have hhello : (announce cfg stream again s).hello st = s.hello st := by
    unfold announce
    split
    · exact update_of_ne hst ..
    · split
      · exact update_of_ne hst ..
      · rfl
  simpa only [HelloKept, hhello, announce_generation, announce_live] using h

end Announce

/-- The end of ApplyStreamsLocked, from what the clients were told before (`live`). -/
theorem announce_consistent {live : StreamId → Prop} {audio video : Bool} (h : s.Speaks live)
    (hgone : ∀ stream, ¬s.live stream → ¬live stream) (hvideo : ¬live .video)
    (hnew : s.live .audio → audio = true → ¬live .audio)
    (hkept : s.live .audio → audio = false → live .audio ∧ s.HelloKept .audio)
    (hagain : s.live .video → video = true)
    (hmonitor : ¬s.live .monitor) (hnone : s.hello .monitor = none)
    (hkeyframe : s.keyframe = none) :
    Consistent (announce cfg .video video (announce cfg .audio audio s)) where
  speaks := by
    have ha := announce_speaks cfg .audio audio h (hgone .audio)
      (fun hl hn ↦ ⟨hnew hl hn, fun _ ↦ hvideo⟩) fun hl hk ↦ (hkept hl hk).1
    have hv := announce_speaks cfg .video video ha (fun _ ↦ hvideo)
      (fun _ _ ↦ ⟨hvideo, fun hc ↦ by contradiction⟩) fun hl hk ↦ by
        rw [hagain ((announce_live cfg .audio audio .video).mp hl)] at hk
        contradiction
    refine fun c hc ↦ (hv c hc).congr fun stream ↦ ?_
    cases stream with
    | monitor =>
      simp only [announce_live]
      exact iff_of_false (hgone .monitor hmonitor) hmonitor
    | video => simp [announce_live]
    | audio => simp [announce_live]
  hello stream := by
    cases stream with
    | monitor =>
      refine announce_hello_other _ _ _ (by decide) (announce_hello_other _ _ _ (by decide) ?_)
      exact ⟨fun _ ↦ hnone, fun hl ↦ absurd hl hmonitor⟩
    | video =>
      refine announce_hello _ _ _ fun hl hk ↦ ?_
      rw [hagain ((announce_live cfg .audio audio .video).mp hl)] at hk
      contradiction
    | audio =>
      exact announce_hello_other _ _ _ (by decide)
        (announce_hello _ _ _ fun hl hk ↦ (hkept hl hk).2)
  monitor := by simpa only [announce_live] using hmonitor
  keyframe m hm := by simp [hkeyframe] at hm

theorem applyStreams_consistent (video audio : Bytes) (h : Consistent s)
    (hkept : CountersKept s (applyStreamsLocked cfg video audio s)) :
    Consistent (applyStreamsLocked cfg video audio s) := by
  have hnone := (h.hello .monitor).1 h.monitor
  unfold applyStreamsLocked at hkept ⊢
  dsimp only at hkept ⊢
  split at hkept
  · next hsame =>
    rw [if_pos hsame]
    exact h
  next hchanged =>
  rw [if_neg hchanged]
  cases hbump : needsBump audio s with
  | true =>
    -- a new generation: whatever was announced before no longer counts
    simp only [hbump, if_true, Bool.true_or] at hkept ⊢
    have hgen := toNat_succ (by simpa [CountersKept] using hkept.1)
    refine @announce_consistent cfg _ (fun _ ↦ False) _ _ (fun c hc ↦ ?_) (by simp) (by simp) (by simp)
      (by simp) (by simp) (by simpa [live] using h.monitor) hnone rfl
    exact (h.speaks c hc).bump (by simp [hgen])
  | false =>
    have hcases := hbump
    simp only [needsBump, Bool.or_eq_false_iff, Bool.and_eq_false_iff, decide_eq_false_iff_not,
      not_not] at hcases
    obtain ⟨hvideo, haudio⟩ := hcases
    have hdead : ¬s.live .video := fun hl ↦ hl hvideo
    have hkeyframe : s.keyframe = none := by
      cases hk : s.keyframe with
      | none => rfl
      | some m => exact absurd (h.keyframe m hk).2.2.2 hdead
    simp only [Bool.false_eq_true, if_false, Bool.false_or]
    refine @announce_consistent cfg _ s.live _ _ h.speaks (fun stream hl hs ↦ ?_) hdead
      (fun _ ha hs ↦ ?_) (fun hl ha ↦ ?_) (fun hl ↦ ?_)
      (by simpa [live] using h.monitor) hnone hkeyframe
    · cases stream with
      | monitor => exact h.monitor hs
      | video => exact hdead hs
      | audio =>
        have hgone : audio = [] := by simpa [live] using hl
        rcases haudio with ha | ha
        · exact hs (ha ▸ hgone)
        · exact hs ha
    · rcases haudio with hsame | hgone
      · simp [hsame] at ha
      · exact hs hgone
    · have hsame : audio = s.helloPayload .audio := by simpa using ha
      have hpayload : update (update s.helloPayload .video video) .audio audio .audio =
          s.helloPayload .audio := by rw [update_self, hsame]
      have hlive : s.live .audio := by simpa only [live, hpayload] using hl
      refine ⟨hlive, ?_⟩
      simpa only [HelloKept, live, hpayload] using h.hello .audio
    · simpa [live, hvideo] using hl

/-- `m` is the next media message of `stream`. -/
structure Carries (s : Socket) (stream : StreamId) (m : Message) : Prop where
  media : m.isMedia stream.toByte
  generation : m.generation = s.generation.toNat
  sequence : m.sequence = s.next stream

theorem sendMedia_cases (cfg : Config) (packet : Bytes) (stream : StreamId) (keyframe : Bool)
    (ptsUs : Int64) (cacheClone clone : Bool) (s : Socket) :
    sendMedia cfg packet stream keyframe ptsUs cacheClone clone s = s ∨
    (stream ≠ .monitor ∧ s.live stream ∧ ∃ k m, Carries s stream m ∧
      (k = s.keyframe ∨ ∃ m', k = some m' ∧ stream = .video ∧ Carries s stream m') ∧
      ∃ r : Socket, r = { s with
          sequence := update s.sequence stream (s.sequence stream + 1), keyframe := k } ∧
        (sendMedia cfg packet stream keyframe ptsUs cacheClone clone s = r ∨
          sendMedia cfg packet stream keyframe ptsUs cacheClone clone s = broadcastLocked cfg m r)) := by
  unfold sendMedia
  split
  · exact .inl rfl
  split
  · exact .inl rfl
  split
  · exact .inl rfl
  next hstream hlive =>
  right
  dsimp only
  have hm (type : MessageType) (ht : type = .media ∨ type = .keyframe) (flags : UInt8) :
      Carries s stream (makeMessage s.generation type stream flags (s.sequence stream) ptsUs packet
        false) := ⟨by simp [ht], by simp, by simp [next]⟩
  have hmonitor : stream ≠ .monitor := fun hs ↦ hstream (by simp [hs])
  generalize (if (keyframe && decide (stream = .video)) = true then kFlagKeyframe else 0) = flags
  cases hk : keyframe && decide (stream = .video) && cacheClone with
  | true =>
    have hvideo : stream = .video := by simp_all
    refine ⟨hmonitor, hlive, some _, _, hm .media (.inl rfl) flags,
      .inr ⟨_, rfl, hvideo, hm .keyframe (.inr rfl) flags⟩, _, rfl, ?_⟩
    simp only [if_true]
    split
    · exact .inr rfl
    · exact .inl rfl
  | false =>
    refine ⟨hmonitor, hlive, s.keyframe, _, hm .media (.inl rfl) flags, .inl rfl, _, rfl, ?_⟩
    simp only [Bool.false_eq_true, if_false]
    split
    · exact .inr rfl
    · exact .inl rfl

theorem sendMedia_consistent (packet : Bytes) (stream : StreamId) (keyframe : Bool) (ptsUs : Int64)
    (cacheClone clone : Bool) (h : Consistent s)
    (hkept : CountersKept s (sendMedia cfg packet stream keyframe ptsUs cacheClone clone s)) :
    Consistent (sendMedia cfg packet stream keyframe ptsUs cacheClone clone s) := by
  obtain he | ⟨hmonitor, hlive, k, m, hm, hk, r, hr, he⟩ :=
    sendMedia_cases cfg packet stream keyframe ptsUs cacheClone clone s
  · rw [he]
    exact h
  have hgen : r.generation = s.generation := by rw [hr]
  have hsequence : r.sequence = update s.sequence stream (s.sequence stream + 1) := by rw [hr]
  have hnowrap : s.sequence stream ≤ s.sequence stream + 1 := by
    have hs : CountersKept s r := by
      rcases he with he | he <;> rw [he] at hkept <;> exact hkept
    have := hs.2 hgen
    rw [hsequence] at this
    cases stream with
    | monitor => exact absurd rfl hmonitor
    | video => simpa using this.1
    | audio => simpa using this.2
  have hlast : r.next stream = s.next stream + 1 := by
    rw [next, hsequence, update_self, toNat_succ hnowrap, next]
  have hnext (st : StreamId) : s.next st ≤ r.next st := by
    by_cases hst : st = stream
    · rw [hst, hlast]
      exact Nat.le_succ _
    · rw [next, next, hsequence, update_of_ne hst]
  have hold : Consistent r := by
    subst hr
    refine ⟨fun c hc ↦ (h.speaks c hc).advance hnext, h.hello, h.monitor, fun x hx ↦ ?_⟩
    rcases hk with rfl | ⟨m', rfl, rfl, hm'⟩
    · obtain ⟨hx, hxg, hxs, hl⟩ := h.keyframe x hx
      exact ⟨hx, hxg, hxs.trans_le (hnext .video), hl⟩
    · obtain rfl := Option.some.inj hx
      exact ⟨hm'.media, hm'.generation, by rw [hlast, hm'.sequence]; exact Nat.lt_succ_self _, hlive⟩
  rcases he with he | he
  · rw [he]
    exact hold
  rw [he]
  refine ⟨broadcast_speaks rfl fun c hc ↦ ?_, hold.hello, hold.monitor, hold.keyframe⟩
  have hc' : c ∈ s.connections := by rwa [hr] at hc
  refine (hold.speaks c hc).media hm.media (by rw [hm.generation, hgen]) (by rw [hr]; exact hlive)
    (by rw [hlast, hm.sequence]; exact Nat.lt_succ_self _) fun x hx hxm hxg ↦ ?_
  rw [hm.sequence]
  exact (h.speaks c hc').fresh x hx stream hxm (by rw [hxg, hgen])

/-- A message that is neither a HELLO nor media. -/
def Aside (s : Socket) (m : Message) : Prop :=
  m.generation = s.generation.toNat ∧ (∀ b, ¬m.isHello b) ∧ ∀ b, ¬m.isMedia b

theorem aside_makeMessage (s : Socket) {type : MessageType} {stream : StreamId} {flags : UInt8}
    {sequence : UInt32} {ptsUs : Int64} {payload : Bytes} {control : Bool}
    (ht : type = .event ∨ type = .bye ∨ type = .stats) :
    Aside s (makeMessage s.generation type stream flags sequence ptsUs payload control) := by
  refine ⟨by simp, fun b ↦ ?_, fun b ↦ ?_⟩ <;> rcases ht with rfl | rfl | rfl <;> simp

theorem broadcast_consistent {m : Message} (h : Consistent s) (hm : Aside s m) :
    Consistent (broadcastLocked cfg m s) :=
  ⟨broadcast_speaks rfl fun c hc ↦ (h.speaks c hc).other hm.1 hm.2.1 hm.2.2, h.hello, h.monitor,
    h.keyframe⟩

@[simp] theorem enqueueOption_enqueued (m : Option Message) (c : Connection) :
    (enqueueOption cfg m c).enqueued = c.enqueued ++ m.toList := by
  cases m with
  | none => exact (List.append_nil _).symm
  | some m => rfl

theorem hello_announced {seq : StreamId → ℕ} {live : StreamId → Prop} {l : List Message}
    {stream : StreamId} (h : Announced s.generation.toNat seq live l) (hs : s.HelloKept stream)
    (hlive : ¬live stream) (hvideo : stream = .audio → ¬live .video) :
    Announced s.generation.toNat seq (update live stream (s.live stream))
      (l ++ (s.hello stream).toList) := by
  by_cases hl : s.live stream
  · obtain ⟨m, hm, hhello, hg⟩ := hs.2 hl
    simpa [hm, hl] using h.hello hhello hg hlive hvideo
  · rw [hs.1 hl, Option.toList_none, List.append_nil]
    refine h.congr fun st ↦ ?_
    by_cases hst : st = stream
    · rw [hst, update_self]
      exact iff_of_false hlive hl
    · rw [update_of_ne hst]

theorem primed_enqueued (cfg : Config) (now : ℕ) (s : Socket) : (primed cfg now s).enqueued =
    (((s.hello .audio).toList ++ (s.hello .video).toList) ++ (primedSnapshot s).toList) ++
      s.keyframe.toList := by
  simp [primed, primedSnapshot, Connection.init]

/-- A late joiner is told what everybody else was. -/
theorem primed_announced (cfg : Config) (now : ℕ) (h : Consistent s) :
    Announced s.generation.toNat s.next s.live (primed cfg now s).enqueued := by
  have ha := hello_announced (@Announced.nil s.generation.toNat fun _ ↦ 0) (h.hello .audio) id
    fun _ ↦ id
  have hv := hello_announced ha (h.hello .video) (by simp) fun hc ↦ by contradiction
  have hstart : Announced s.generation.toNat (fun _ ↦ 0) s.live _ := hv.congr fun stream ↦ by
    cases stream with
    | monitor => simpa using h.monitor
    | video => simp
    | audio => simp
  have hevent : Announced s.generation.toNat (fun _ ↦ 0) s.live
      (((s.hello .audio).toList ++ (s.hello .video).toList) ++ (primedSnapshot s).toList) := by
    unfold primedSnapshot
    split
    · simpa using hstart
    · obtain ⟨hg, hhello, hmedia⟩ := aside_makeMessage s (.inl rfl)
      exact hstart.other hg hhello hmedia
  have hlate := hevent.advance fun stream ↦ Nat.zero_le (s.next stream)
  rw [primed_enqueued]
  cases hk : s.keyframe with
  | none => simpa using hlate
  | some m =>
    obtain ⟨hm, hg, hlt, hlive⟩ := h.keyframe m hk
    exact hlate.media hm hg hlive hlt fun x hx hxm hxg ↦
      absurd (hevent.fresh x hx .video hxm hxg) (Nat.not_lt_zero _)

theorem acceptClient_consistent (euid : ℕ) (credentials : Option ℕ) (now : ℕ) (h : Consistent s) :
    Consistent (acceptClient cfg euid credentials now s) := by
  unfold acceptClient
  split
  · exact h
  split
  · exact h
  refine ⟨fun c hc ↦ ?_, h.hello, h.monitor, h.keyframe⟩
  rcases List.mem_append.mp hc with hc | hc
  · exact h.speaks c hc
  · rw [List.mem_singleton.mp hc]
    have hnew := primed_announced cfg now h
    exact hnew

theorem onConnection_consistent {i : ℕ} {f : Connection → Option Connection} {s' : Socket}
    (h : Consistent s) (hf : ∀ c c', f c = some c' →
      c'.enqueued = c.enqueued ∨ ∃ m, Aside s m ∧ c'.enqueued = c.enqueued ++ [m])
    (hs : onConnection i f s = some s') : Consistent s' := by
  obtain ⟨c, hc, hs⟩ := Option.bind_eq_some_iff.mp hs
  obtain ⟨c', hc', hs⟩ := Option.bind_eq_some_iff.mp hs
  obtain rfl := Option.some.inj hs
  refine ⟨fun x hx ↦ ?_, h.hello, h.monitor, h.keyframe⟩
  rcases List.mem_or_eq_of_mem_set hx with hx | rfl
  · exact h.speaks x hx
  · have ha := h.speaks c (List.mem_of_getElem? hc)
    rcases hf c x hc' with he | ⟨m, hm, he⟩ <;> rw [he]
    · exact ha
    · exact ha.other hm.1 hm.2.1 hm.2.2

theorem step_consistent {op : Op} {s' : Socket} (h : Consistent s)
    (hs : step cfg codecName s op = some s') (hkept : CountersKept s s') : Consistent s' := by
  cases op with
  | setStreams | setVideoParams | setAudioParams | clearVideoParams | clearAudioParams =>
    obtain rfl := Option.some.inj hs
    exact applyStreams_consistent _ _ h hkept
  | sendMedia =>
    obtain rfl := Option.some.inj hs
    exact sendMedia_consistent _ _ _ _ _ _ h hkept
  | sendMonitorEvent payload =>
    obtain rfl := Option.some.inj hs
    have hbumped : Consistent { s with eventSequence := s.eventSequence + 1 } :=
      ⟨h.speaks, h.hello, h.monitor, h.keyframe⟩
    exact broadcast_consistent hbumped (aside_makeMessage s (.inl rfl))
  | setSnapshotEvent =>
    obtain rfl := Option.some.inj hs
    exact ⟨h.speaks, h.hello, h.monitor, h.keyframe⟩
  | invalidateKeyframe =>
    obtain rfl := Option.some.inj hs
    exact ⟨h.speaks, h.hello, h.monitor, fun m hm ↦ by contradiction⟩
  | acceptClient =>
    obtain rfl := Option.some.inj hs
    exact acceptClient_consistent _ _ _ h
  | peekFront => exact onConnection_consistent h (fun _ _ hc ↦ .inl ((peekFront_frame hc).1)) hs
  | sendMsg => exact onConnection_consistent h (fun _ _ hc ↦ .inl ((sendMsg_frame hc).1)) hs
  | finishWrite => exact onConnection_consistent h (fun _ _ hc ↦ .inl (finishWrite_enqueued hc)) hs
  | sendStats i now =>
    refine onConnection_consistent h (fun c c' hc ↦ ?_) hs
    rw [← Option.some.inj hc]
    unfold sendStatsLocked
    split
    · exact .inl rfl
    · exact .inr ⟨_, aside_makeMessage s (.inr (.inr rfl)), rfl⟩
  | removeClient i =>
    obtain ⟨c, -, hr⟩ := Option.bind_eq_some_iff.mp hs
    split at hr
    · rw [← Option.some.inj hr]
      exact ⟨fun c hc ↦ h.speaks c (List.eraseIdx_subset hc), h.hello, h.monitor, h.keyframe⟩
    · contradiction
  | sendBye =>
    obtain rfl := Option.some.inj hs
    exact broadcast_consistent h (aside_makeMessage s (.inr (.inl rfl)))

theorem init_consistent : Consistent .init :=
  ⟨fun _ hc ↦ by contradiction, fun _ ↦ ⟨fun _ ↦ rfl, fun hl ↦ absurd rfl hl⟩, fun hl ↦ hl rfl,
    fun _ hm ↦ by contradiction⟩

/-- No message of a run makes a counter wrap. -/
def NoWrap (cfg : Config) (codecName : UInt32 → Bytes) (s : Socket) (op : Op) : Prop :=
  ∀ s' ∈ step cfg codecName s op, CountersKept s s'

instance (cfg : Config) (codecName : UInt32 → Bytes) (s : Socket) (op : Op) :
    Decidable (NoWrap cfg codecName s op) :=
  inferInstanceAs (Decidable (∀ s' ∈ step cfg codecName s op, CountersKept s s'))

/-- Every client hears the announcement protocol, whichever droppable messages it loses. -/
theorem announcements_ordered {ops : List Op}
    (h : Run (step cfg codecName) (NoWrap cfg codecName) .init ops s) {c : Connection}
    (hc : c ∈ s.connections) {l : List Message} (hl : Thins (·.control) c.enqueued l) :
    AnnouncementOrder l := by
  have hspeaks : Consistent s := h.invariant (I := Consistent)
    (fun s op s' hs hkept ht ↦ step_consistent hs ht (hkept s' ht)) init_consistent
  have hflag := (reachable_framed ⟨ops, h.mono fun _ _ _ ↦ trivial⟩ c hc).2
  refine (hspeaks.speaks c hc).order.thin (fun m hm stream hhello ↦ ?_) hl
  rw [hflag m hm, Message.isControl, hhello.1]
  rfl

/-- Audio appears beside video, and the client loses the only packet of generation 0. -/
theorem announcements_ordered_bump : ∃ (s : Socket) (c : Connection), c ∈ s.connections ∧
    (c.enqueued.eraseP fun m ↦ !m.control).map
        (fun m ↦ (m.decoded.type, m.decoded.stream, m.decoded.generation)) =
      [(1, 0, 0), (1, 1, 1), (1, 0, 1), (2, 0, 1), (2, 1, 1)] ∧
    AnnouncementOrder (c.enqueued.eraseP fun m ↦ !m.control) := by
  obtain ⟨s, hrun, hs⟩ := Run.exists_of_any (step ⟨[], 8, 1000, 9, 5⟩ fun _ ↦ [104])
    (NoWrap ⟨[], 8, 1000, 9, 5⟩ fun _ ↦ [104]) .init
    [.acceptClient 0 none 0, .setVideoParams (some ⟨.video, 27, [], 4, 4, 0, 0, 0, 0⟩) ⟨1, 1⟩,
      .sendMedia [5] .video true 0 true true,
      .setAudioParams (some ⟨.audio, 86018, [], 0, 0, 8000, 1, 0, 0⟩),
      .sendMedia [6] .video true 0 true true, .sendMedia [7] .audio true 0 true true]
    (fun s ↦ s.connections[0]?.any fun c ↦ (c.enqueued.eraseP fun m ↦ !m.control).map
        (fun m ↦ (m.decoded.type, m.decoded.stream, m.decoded.generation)) =
      [(1, 0, 0), (1, 1, 1), (1, 0, 1), (2, 0, 1), (2, 1, 1)])
    (by decide)
  obtain ⟨c, hc, hl⟩ := (Option.any_eq_true _ _).mp hs
  have hmem := List.mem_of_getElem? hc
  exact ⟨s, c, hmem, of_decide_eq_true hl,
    announcements_ordered hrun hmem (Thins.eraseP c.enqueued)⟩

end ZoneMinder.StreamSocket
