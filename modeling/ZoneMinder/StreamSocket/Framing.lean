import ZoneMinder.StreamSocket.Server

namespace ZoneMinder.StreamSocket

open Lib Function

def MessageType.isControl : MessageType → Bool
  | .hello | .event | .bye => true
  | .media | .keyframe | .stats => false

/-- HELLO, EVENT and BYE are the control messages of the protocol. -/
def Message.isControl (m : Message) : Bool :=
  m.decoded.type = MessageType.hello.toByte || m.decoded.type = MessageType.event.toByte ||
    m.decoded.type = MessageType.bye.toByte

/-- The flag the queue looks at says what the type on the wire says. -/
def Message.Flagged (m : Message) : Prop := m.control = m.isControl

/-- What MakeMessage frames is `ok` when the payload `fits` a message of its kind. -/
def Makes (ok : Message → Prop) (fits : Bool → Bytes → Prop) : Prop :=
  ∀ (generation : UInt32) (type : MessageType) (stream : StreamId) (flags : UInt8)
    (sequence : UInt32) (ptsUs : Int64) (payload : Bytes), fits type.isControl payload →
      ok (makeMessage generation type stream flags sequence ptsUs payload type.isControl)

theorem makes_flagged : Makes Message.Flagged fun _ _ ↦ True := by
  intro generation type stream flags sequence ptsUs payload _
  unfold Message.Flagged Message.isControl makeMessage
  rw [decoded_frame, control_frame]
  cases type <;> rfl

/-- Everything that happens to one client: messages accepted by `ok` are enqueued,
the listener drains it. -/
inductive Served (cfg : Config) (ok : Message → Prop) : Connection → Connection → Prop
  | refl (c : Connection) : Served cfg ok c c
  | enqueue {c c' : Connection} (m : Message) :
      Served cfg ok c c' → ok m → Served cfg ok c (enqueue cfg m c')
  | stamp {c c' : Connection} (now : ℕ) : Served cfg ok c c' →
      Served cfg ok c { c' with client := { c'.client with lastStats := now } }
  | peekFront {c c' c'' : Connection} :
      Served cfg ok c c' → peekFront c' = some c'' → Served cfg ok c c''
  | sendMsg {c c' c'' : Connection} {result : SendResult} :
      Served cfg ok c c' → sendMsg result c' = some c'' → Served cfg ok c c''
  | finishWrite {c c' c'' : Connection} :
      Served cfg ok c c' → finishWrite c' = some c'' → Served cfg ok c c''

variable {cfg : Config} {ok : Message → Prop} {codecName : UInt32 → Bytes}

theorem Served.trans {c c' c'' : Connection} (h : Served cfg ok c c')
    (h' : Served cfg ok c' c'') : Served cfg ok c c'' := by
  induction h' with
  | refl => exact h
  | enqueue m _ hm ih => exact ih.enqueue m hm
  | stamp now _ ih => exact ih.stamp now
  | peekFront _ hs ih => exact ih.peekFront hs
  | sendMsg _ hs ih => exact ih.sendMsg hs
  | finishWrite _ hs ih => exact ih.finishWrite hs

theorem peekFront_frame {c c' : Connection} (h : peekFront c = some c') :
    c'.enqueued = c.enqueued ∧ c'.client.queue = c.client.queue := by
  unfold peekFront at h
  split at h
  · rw [← Option.some.inj h]
    exact ⟨rfl, rfl⟩
  · rw [← Option.some.inj h]
    exact ⟨rfl, rfl⟩
  · contradiction

theorem sendMsg_frame {c c' : Connection} {result : SendResult} (h : sendMsg result c = some c') :
    c'.enqueued = c.enqueued ∧ c'.client.queue = c.client.queue := by
  unfold sendMsg at h
  split at h
  · split at h
    · split at h
      · rw [← Option.some.inj h]
        exact ⟨rfl, rfl⟩
      · contradiction
    · rw [← Option.some.inj h]
      exact ⟨rfl, rfl⟩
  · contradiction

/-- A connection that is framed, with `kept` messages in its queue and sent before. -/
def FramedWith (kept : Message → Prop) (c : Connection) : Prop :=
  ∃ delivered, Framed delivered c ∧ ∀ m ∈ delivered ++ c.client.queue, kept m

theorem Served.framed {kept : Message → Prop} (hkept : ∀ m, ok m → Queueable cfg m → kept m)
    {c c' : Connection} (h : Served cfg ok c c') (hc : FramedWith kept c) :
    FramedWith kept c' := by
  induction h with
  | refl => exact hc
  | enqueue m _ hm ih =>
    obtain ⟨delivered, hd, hmem⟩ := ih
    refine ⟨delivered, enqueue_framed cfg m hd, fun x hx ↦ ?_⟩
    rcases List.mem_append.mp hx with hx | hx
    · exact hmem x (List.mem_append_left _ hx)
    · rcases enqueueLocked_mem hx with hx | ⟨rfl, hq⟩
      · exact hmem x (List.mem_append_right _ hx)
      · exact hkept x hm hq
  | stamp now _ ih =>
    obtain ⟨delivered, hd, hmem⟩ := ih
    exact ⟨delivered,
      hd.frame rfl rfl rfl rfl rfl (fun _ ↦ rfl) hd.thins hd.count hd.bytes, hmem⟩
  | peekFront _ hs ih =>
    obtain ⟨delivered, hd, hmem⟩ := ih
    refine ⟨delivered, peekFront_framed hd hs, ?_⟩
    rwa [(peekFront_frame hs).2]
  | sendMsg _ hs ih =>
    obtain ⟨delivered, hd, hmem⟩ := ih
    refine ⟨delivered, sendMsg_framed hd hs, ?_⟩
    rwa [(sendMsg_frame hs).2]
  | finishWrite _ hs ih =>
    obtain ⟨delivered, hd, hmem⟩ := ih
    obtain ⟨delivered', hd', heq⟩ := finishWrite_framed hd hs
    exact ⟨delivered', hd', by rwa [heq]⟩

theorem finishWrite_enqueued {c c' : Connection} (h : finishWrite c = some c') :
    c'.enqueued = c.enqueued := by
  unfold finishWrite at h
  split at h
  · dsimp only at h
    split at h
    · rw [← Option.some.inj h]
    · rw [← Option.some.inj h]
    · rw [← Option.some.inj h]
    · split at h <;> rw [← Option.some.inj h]
  · contradiction

theorem Served.enqueued_ok {c c' : Connection} (h : Served cfg ok c c')
    (hc : ∀ m ∈ c.enqueued, ok m) : ∀ m ∈ c'.enqueued, ok m := by
  induction h with
  | refl => exact hc
  | enqueue m _ hm ih =>
    intro x hx
    rcases List.mem_append.mp hx with hx | hx
    · exact ih x hx
    · rwa [List.mem_singleton.mp hx]
  | stamp _ _ ih => exact ih
  | peekFront _ hs ih => rwa [(peekFront_frame hs).1]
  | sendMsg _ hs ih => rwa [(sendMsg_frame hs).1]
  | finishWrite _ hs ih => rwa [finishWrite_enqueued hs]

/-- Every connection of `s'` is a connection of `s`, or a new one, served further. -/
def Serves (cfg : Config) (ok : Message → Prop) (s s' : Socket) : Prop :=
  ∀ c' ∈ s'.connections, ∃ c, (c ∈ s.connections ∨ ∃ now, c = .init now) ∧ Served cfg ok c c'

theorem Serves.of_subset {s s' : Socket} (h : s'.connections ⊆ s.connections) :
    Serves cfg ok s s' :=
  fun c hc ↦ ⟨c, .inl (h hc), .refl c⟩

theorem Serves.trans {s s' s'' : Socket} (h : Serves cfg ok s s') (h' : Serves cfg ok s' s'') :
    Serves cfg ok s s'' := by
  intro c hc
  obtain ⟨c', hc' | hnew, hs'⟩ := h' c hc
  · obtain ⟨c'', hc'', hs⟩ := h c' hc'
    exact ⟨c'', hc'', hs.trans hs'⟩
  · exact ⟨c', .inr hnew, hs'⟩

theorem broadcast_serves {m : Message} (hm : ok m) (s : Socket) :
    Serves cfg ok s (broadcastLocked cfg m s) := by
  intro c' hc'
  obtain ⟨c, hc, rfl⟩ := List.mem_map.mp hc'
  exact ⟨c, .inl hc, (Served.refl c).enqueue m hm⟩

theorem onConnection_serves {i : ℕ} {f : Connection → Option Connection} {s s' : Socket}
    (hf : ∀ c c', f c = some c' → Served cfg ok c c') (h : onConnection i f s = some s') :
    Serves cfg ok s s' := by
  obtain ⟨c, hc, h⟩ := Option.bind_eq_some_iff.mp h
  obtain ⟨c', hc', h⟩ := Option.bind_eq_some_iff.mp h
  obtain rfl := Option.some.inj h
  intro x hx
  rcases List.mem_or_eq_of_mem_set hx with hx | rfl
  · exact ⟨x, .inl hx, .refl x⟩
  · exact ⟨c, .inl (List.mem_of_getElem? hc), hf c x hc'⟩

theorem enqueueOption_served {m : Option Message} {c c' : Connection} (hm : ∀ x, m = some x → ok x)
    (h : Served cfg ok c c') : Served cfg ok c (enqueueOption cfg m c') := by
  cases m with
  | none => exact h
  | some m => exact h.enqueue m (hm m rfl)

/-- The messages and payloads a socket keeps for clients to come. -/
structure Cached (ok : Message → Prop) (fits : Bool → Bytes → Prop) (s : Socket) : Prop where
  hello : ∀ stream m, s.hello stream = some m → ok m
  keyframe : ∀ m, s.keyframe = some m → ok m
  helloPayload : ∀ stream, fits true (s.helloPayload stream)
  snapshot : fits true s.snapshotPayload

variable {fits : Bool → Bytes → Prop}

theorem Cached.hello_update {s : Socket} (h : Cached ok fits s) {stream st : StreamId}
    {v : Option Message} (hv : ∀ m, v = some m → ok m) {m : Message}
    (hm : update s.hello stream v st = some m) : ok m := by
  by_cases hst : st = stream
  · subst hst
    rw [update_self] at hm
    exact hv m hm
  · rw [update_of_ne hst] at hm
    exact h.hello st m hm

theorem announce_serves (hmake : Makes ok fits) (stream : StreamId) (again : Bool) {s : Socket}
    (h : Cached ok fits s) :
    Serves cfg ok s (announce cfg stream again s) ∧ Cached ok fits (announce cfg stream again s) := by
  have hm := hmake s.generation .hello stream 0 0 0 (s.helloPayload stream) (h.helloPayload stream)
  unfold announce
  split
  · exact ⟨.of_subset (List.Subset.refl _), fun st m hs ↦ h.hello_update (fun x hx ↦ by contradiction) hs,
      h.keyframe, h.helloPayload, h.snapshot⟩
  · split
    · refine ⟨broadcast_serves hm _, fun st m hs ↦ h.hello_update (fun x hx ↦ ?_) hs, h.keyframe,
        h.helloPayload, h.snapshot⟩
      rw [← Option.some.inj hx]
      exact hm
    · exact ⟨.of_subset (List.Subset.refl _), h⟩

theorem applyStreams_serves (hmake : Makes ok fits) {video audio : Bytes} (hvideo : fits true video)
    (haudio : fits true audio) {s : Socket} (h : Cached ok fits s) :
    Serves cfg ok s (applyStreamsLocked cfg video audio s) ∧
      Cached ok fits (applyStreamsLocked cfg video audio s) := by
  unfold applyStreamsLocked
  dsimp only
  split
  · exact ⟨.of_subset (List.Subset.refl _), h⟩
  · generalize hr : (if needsBump audio s = true then
        ({ s with generation := s.generation + 1, sequence := fun _ ↦ 0, keyframe := none } : Socket)
      else s) = r
    have hsub : r.connections ⊆ s.connections := by
      rw [← hr]
      split <;> exact List.Subset.refl _
    have hcache : Cached ok fits r := by
      rw [← hr]
      split
      · exact ⟨h.hello, fun m hm ↦ by simp at hm, h.helloPayload, h.snapshot⟩
      · exact h
    have hpayload (stream : StreamId) :
        fits true (update (update r.helloPayload .video video) .audio audio stream) := by
      cases stream
      · exact hvideo
      · exact haudio
      · exact hcache.helloPayload .monitor
    have hset : Cached ok fits { r with
        helloPayload := update (update r.helloPayload .video video) .audio audio } :=
      ⟨hcache.hello, hcache.keyframe, hpayload, hcache.snapshot⟩
    obtain ⟨ha, hac⟩ := @announce_serves cfg _ _ hmake .audio
      (needsBump audio s || decide (audio ≠ s.helloPayload .audio)) _ hset
    obtain ⟨hv, hvc⟩ := @announce_serves cfg _ _ hmake .video
      (needsBump audio s || decide (video ≠ s.helloPayload .video)) _ hac
    exact ⟨(Serves.of_subset hsub).trans (Serves.trans (fun c hc ↦ ha c hc) hv), hvc⟩

theorem sendMedia_serves (hmake : Makes ok fits) {packet : Bytes} (hpacket : fits false packet)
    (stream : StreamId) (keyframe : Bool) (ptsUs : Int64) (cacheClone clone : Bool) {s : Socket}
    (h : Cached ok fits s) :
    Serves cfg ok s (sendMedia cfg packet stream keyframe ptsUs cacheClone clone s) ∧
      Cached ok fits (sendMedia cfg packet stream keyframe ptsUs cacheClone clone s) := by
  have hsame : Serves cfg ok s s := .of_subset (List.Subset.refl _)
  unfold sendMedia
  split
  · exact ⟨hsame, h⟩
  split
  · exact ⟨hsame, h⟩
  split
  · exact ⟨hsame, h⟩
  dsimp only
  generalize hr : (if (keyframe && decide (stream = .video) && cacheClone) = true then
      ({ s with
        keyframe := some (makeMessage s.generation .keyframe stream _ _ ptsUs packet false)
        sequence := _ } : Socket) else _) = r
  have hrc : r.connections = s.connections ∧ Cached ok fits r := by
    rw [← hr]
    split
    · refine ⟨rfl, h.hello, fun m he ↦ ?_, h.helloPayload, h.snapshot⟩
      rw [← Option.some.inj he]
      exact hmake _ .keyframe _ _ _ _ _ hpacket
    · exact ⟨rfl, h.hello, h.keyframe, h.helloPayload, h.snapshot⟩
  have hsub : Serves cfg ok s r := .of_subset (by rw [hrc.1]; exact List.Subset.refl _)
  split
  · exact ⟨hsub.trans (broadcast_serves (hmake _ .media _ _ _ _ _ hpacket) r), hrc.2.hello,
      hrc.2.keyframe, hrc.2.helloPayload, hrc.2.snapshot⟩
  · exact ⟨hsub, hrc.2⟩

theorem primed_served (hmake : Makes ok fits) (now : ℕ) {s : Socket} (h : Cached ok fits s) :
    Served cfg ok (.init now) (primed cfg now s) := by
  refine enqueueOption_served h.keyframe (enqueueOption_served (fun m hm ↦ ?_)
    (enqueueOption_served (h.hello .video) (enqueueOption_served (h.hello .audio) (.refl _))))
  unfold primedSnapshot at hm
  split at hm
  · contradiction
  · rw [← Option.some.inj hm]
    exact hmake _ .event _ _ _ _ _ h.snapshot

/-- The payloads every socket may come to frame. -/
structure Fitting (codecName : UInt32 → Bytes) (fits : Bool → Bytes → Prop) : Prop where
  empty : fits true []
  hello : ∀ par rate, fits true (helloPayload codecName par rate)
  stats : ∀ sent dropped, fits false (buildStats sent dropped)

/-- The payload an operation hands to the socket fits. -/
def Op.Carries (fits : Bool → Bytes → Prop) : Op → Prop
  | .sendMedia packet .. => fits false packet
  | .sendMonitorEvent payload | .setSnapshotEvent payload => fits true payload
  | _ => True

theorem sendStats_served (hmake : Makes ok fits) (hfit : Fitting codecName fits)
    (generation : UInt32) (now : ℕ) (c : Connection) :
    Served cfg ok c (sendStatsLocked cfg generation now c) := by
  unfold sendStatsLocked
  split
  · exact .refl c
  · exact ((Served.refl c).stamp now).enqueue _ (hmake generation .stats _ _ _ _ _ (hfit.stats _ _))

theorem step_serves (hmake : Makes ok fits) (hfit : Fitting codecName fits) {s s' : Socket} {op : Op}
    (h : Cached ok fits s) (hop : op.Carries fits) (hs : step cfg codecName s op = some s') :
    Serves cfg ok s s' ∧ Cached ok fits s' := by
  have hdrain {i : ℕ} {f : Connection → Option Connection}
      (hf : ∀ c c', f c = some c' → Served cfg ok c c') (hi : onConnection i f s = some s') :
      Serves cfg ok s s' ∧ Cached ok fits s' := by
    refine ⟨onConnection_serves hf hi, ?_⟩
    obtain ⟨c, -, hi⟩ := Option.bind_eq_some_iff.mp hi
    obtain ⟨c', -, hi⟩ := Option.bind_eq_some_iff.mp hi
    rw [← Option.some.inj hi]
    exact ⟨h.hello, h.keyframe, h.helloPayload, h.snapshot⟩
  cases op with
  | setStreams video rate audio =>
    rw [← Option.some.inj hs]
    exact applyStreams_serves hmake (hfit.hello _ _) (hfit.hello _ _) h
  | setVideoParams =>
    rw [← Option.some.inj hs]
    exact applyStreams_serves hmake (hfit.hello _ _) (h.helloPayload _) h
  | setAudioParams =>
    rw [← Option.some.inj hs]
    exact applyStreams_serves hmake (h.helloPayload _) (hfit.hello _ _) h
  | clearVideoParams =>
    rw [← Option.some.inj hs]
    exact applyStreams_serves hmake (hfit.hello none _) (h.helloPayload _) h
  | clearAudioParams =>
    rw [← Option.some.inj hs]
    exact applyStreams_serves hmake (h.helloPayload _) (hfit.hello none _) h
  | sendMedia =>
    rw [← Option.some.inj hs]
    exact sendMedia_serves hmake hop _ _ _ _ _ h
  | sendMonitorEvent payload =>
    rw [← Option.some.inj hs]
    have hevent := hmake s.generation .event .monitor 0 s.eventSequence 0 payload hop
    exact ⟨fun c hc ↦ broadcast_serves hevent s c hc, h.hello, h.keyframe, h.helloPayload, h.snapshot⟩
  | setSnapshotEvent =>
    rw [← Option.some.inj hs]
    exact ⟨.of_subset (List.Subset.refl _), h.hello, h.keyframe, h.helloPayload, hop⟩
  | invalidateKeyframe =>
    rw [← Option.some.inj hs]
    exact ⟨.of_subset (List.Subset.refl _), h.hello, fun m hm ↦ by contradiction, h.helloPayload,
      h.snapshot⟩
  | acceptClient euid credentials now =>
    rw [← Option.some.inj hs]
    unfold acceptClient
    split
    · exact ⟨.of_subset (List.Subset.refl _), h⟩
    split
    · exact ⟨.of_subset (List.Subset.refl _), h⟩
    refine ⟨fun c hc ↦ ?_, h.hello, h.keyframe, h.helloPayload, h.snapshot⟩
    rcases List.mem_append.mp hc with hc | hc
    · exact ⟨c, .inl hc, .refl c⟩
    · rw [List.mem_singleton.mp hc]
      exact ⟨_, .inr ⟨now, rfl⟩, primed_served hmake now h⟩
  | peekFront => exact hdrain (fun c c' hc ↦ (Served.refl c).peekFront hc) hs
  | sendMsg => exact hdrain (fun c c' hc ↦ (Served.refl c).sendMsg hc) hs
  | finishWrite => exact hdrain (fun c c' hc ↦ (Served.refl c).finishWrite hc) hs
  | sendStats i now =>
    refine hdrain (fun c c' hc ↦ ?_) hs
    rw [← Option.some.inj hc]
    exact sendStats_served hmake hfit _ now c
  | removeClient i =>
    obtain ⟨c, -, hr⟩ := Option.bind_eq_some_iff.mp hs
    split at hr
    · rw [← Option.some.inj hr]
      exact ⟨.of_subset (List.eraseIdx_subset ..), h.hello, h.keyframe, h.helloPayload, h.snapshot⟩
    · contradiction
  | sendBye =>
    rw [← Option.some.inj hs]
    have hbye := hmake s.generation .bye .video 0 0 0 [] hfit.empty
    exact ⟨fun c hc ↦ broadcast_serves hbye s c hc, h.hello, h.keyframe, h.helloPayload, h.snapshot⟩

/-- Every client of a socket keeps its framing along a run, and is sent `ok` messages only. -/
theorem run_framed (hmake : Makes ok fits) (hfit : Fitting codecName fits) {kept : Message → Prop}
    (hkept : ∀ m, ok m → Queueable cfg m → kept m) {ops : List Op} {s : Socket}
    (h : Run (step cfg codecName) (fun _ op ↦ op.Carries fits) .init ops s) :
    ∀ c ∈ s.connections, FramedWith kept c ∧ ∀ m ∈ c.enqueued, ok m := by
  refine (h.invariant (I := fun s ↦ Cached ok fits s ∧ ∀ c ∈ s.connections,
    FramedWith kept c ∧ ∀ m ∈ c.enqueued, ok m) ?_ ?_).2
  · rintro s op s' ⟨hcache, hinv⟩ hop hs
    obtain ⟨hserves, hcache'⟩ := step_serves hmake hfit hcache hop hs
    refine ⟨hcache', fun c' hc' ↦ ?_⟩
    obtain ⟨c, hc | ⟨now, rfl⟩, hserved⟩ := hserves c' hc'
    · exact ⟨hserved.framed hkept (hinv c hc).1, hserved.enqueued_ok (hinv c hc).2⟩
    · exact ⟨hserved.framed hkept ⟨[], framed_init now, fun m hm ↦ by contradiction⟩,
        hserved.enqueued_ok fun m hm ↦ by contradiction⟩
  · exact ⟨⟨fun _ _ hm ↦ by contradiction, fun _ hm ↦ by contradiction, fun _ ↦ hfit.empty,
      hfit.empty⟩, fun c hc ↦ by contradiction⟩

theorem reachable_framed {s : Socket} (h : Reachable (step cfg codecName) .init s) :
    ∀ c ∈ s.connections,
      (∃ delivered, Framed delivered c) ∧ ∀ m ∈ c.enqueued, m.Flagged := by
  obtain ⟨ops, hrun⟩ := h
  have hcarries (s : Socket) (op : Op) (_ : True) : op.Carries fun _ _ ↦ True := by
    cases op <;> trivial
  intro c hc
  obtain ⟨⟨delivered, hd, -⟩, hflag⟩ := run_framed makes_flagged ⟨trivial, fun _ _ ↦ trivial,
    fun _ _ ↦ trivial⟩ (fun _ _ _ ↦ trivial) (hrun.mono hcarries) c hc
  exact ⟨⟨delivered, hd⟩, hflag⟩

/-- What one client receives, at any moment of any run: whole messages in the
order they were enqueued, the last of them possibly still being written. -/
theorem wire_framed {s : Socket} (h : Reachable (step cfg codecName) .init s) {c : Connection}
    (hc : c ∈ s.connections) :
    (∃ delivered, (delivered ++ c.client.queue).Sublist c.enqueued ∧
      delivered.length = c.client.sent ∧
      delivered.flatMap Message.bytes <+: c.wire ∧
      c.wire <+: (delivered ++ c.client.queue).flatMap Message.bytes) ∧
    c.client.queuedBytes = (c.client.queue.map Message.size).sum := by
  obtain ⟨⟨delivered, hd⟩, -⟩ := reachable_framed h c hc
  refine ⟨⟨delivered, hd.thins.sublist, hd.sent, ?_, ?_⟩, hd.bytes⟩
  · rw [hd.wire]
    exact List.prefix_append _ _
  · rw [hd.wire, List.flatMap_append]
    refine (List.prefix_append_right_inj _).mpr ((List.take_prefix _ _).trans ?_)
    unfold frontBytes
    cases c.client.queue with
    | nil => exact List.prefix_refl _
    | cons front rest => exact List.prefix_append _ _

/-- Two events are queued around a write cut short after ten bytes. -/
theorem wire_framed_cut : ∃ (s : Socket) (c : Connection), c ∈ s.connections ∧
    c.wire.length = 10 ∧ c.client.queue.length = 2 ∧
    ((∃ delivered, (delivered ++ c.client.queue).Sublist c.enqueued ∧
      delivered.length = c.client.sent ∧
      delivered.flatMap Message.bytes <+: c.wire ∧
      c.wire <+: (delivered ++ c.client.queue).flatMap Message.bytes) ∧
    c.client.queuedBytes = (c.client.queue.map Message.size).sum) := by
  obtain ⟨s, hrun, hs⟩ := Run.exists_of_any (step ⟨[], 8, 1000, 16, 5⟩ fun _ ↦ [])
    (fun _ _ ↦ True) .init
    [.acceptClient 0 none 0, .sendMonitorEvent [1], .peekFront 0, .sendMsg 0 (.written 10),
      .sendMonitorEvent [2], .finishWrite 0]
    (fun s ↦ s.connections[0]?.any fun c ↦ c.wire.length = 10 && c.client.queue.length = 2)
    (by decide)
  obtain ⟨c, hc, hlen⟩ := (Option.any_eq_true _ _).mp hs
  obtain ⟨hwire, hqueue⟩ : c.wire.length = 10 ∧ c.client.queue.length = 2 := by simpa using hlen
  have hmem := List.mem_of_getElem? hc
  exact ⟨s, c, hmem, hwire, hqueue, wire_framed ⟨_, hrun⟩ hmem⟩

/-- The accounts of one client at any moment of any run, and the bound its queue
keeps right after each EnqueueLocked. -/
theorem queue_accounted {s : Socket} (h : Reachable (step cfg codecName) .init s) {c : Connection}
    (hc : c ∈ s.connections) :
    c.enqueued.length = c.client.sent + c.client.dropped + c.client.queue.length ∧
    (∃ delivered, delivered.length = c.client.sent ∧
      delivered.flatMap Message.bytes <+: c.wire ∧
      (delivered ++ c.client.queue).filter Message.isControl =
        c.enqueued.filter Message.isControl) ∧
    (∀ m ∈ c.enqueued, m.control = m.isControl) ∧
    ∀ (client : Client) (m : Message), overfull cfg (enqueueLocked cfg client m) →
      ∀ x ∈ droppablePart (enqueueLocked cfg client m), x.control = true := by
  obtain ⟨⟨delivered, hd⟩, hflag⟩ := reachable_framed h c hc
  refine ⟨hd.count, ⟨delivered, hd.sent, ?_, ?_⟩, hflag, fun client m ↦
    enqueueLocked_overfull cfg client m⟩
  · rw [hd.wire]
    exact List.prefix_append _ _
  · have hkept : ∀ m ∈ delivered ++ c.client.queue, m.isControl = m.control :=
      fun m hm ↦ (hflag m (hd.thins.sublist.subset hm)).symm
    calc (delivered ++ c.client.queue).filter Message.isControl
        = (delivered ++ c.client.queue).filter (·.control) := List.filter_congr hkept
      _ = c.enqueued.filter (·.control) := hd.thins.filter_eq fun _ hm ↦ hm
      _ = c.enqueued.filter Message.isControl := List.filter_congr hflag

/-- With room for two messages a third event is queued, a fourth media packet is
dropped and the queue stands above its limit. -/
theorem queue_accounted_overfull : ∃ (s : Socket) (c : Connection), c ∈ s.connections ∧
    c.client.dropped = 1 ∧ c.client.queue.length = 4 ∧
    c.enqueued.length = c.client.sent + c.client.dropped + c.client.queue.length ∧
    (∃ delivered, delivered.length = c.client.sent ∧
      delivered.flatMap Message.bytes <+: c.wire ∧
      (delivered ++ c.client.queue).filter Message.isControl =
        c.enqueued.filter Message.isControl) ∧
    (∀ m ∈ c.enqueued, m.control = m.isControl) ∧
    ∀ (client : Client) (m : Message), overfull ⟨[], 8, 1000, 2, 5⟩
        (enqueueLocked ⟨[], 8, 1000, 2, 5⟩ client m) →
      ∀ x ∈ droppablePart (enqueueLocked ⟨[], 8, 1000, 2, 5⟩ client m), x.control = true := by
  obtain ⟨s, hrun, hs⟩ := Run.exists_of_any (step ⟨[], 8, 1000, 2, 5⟩ fun _ ↦ [104])
    (fun _ _ ↦ True) .init
    [.acceptClient 0 none 0, .sendMonitorEvent [1], .sendMonitorEvent [2], .sendMonitorEvent [3],
      .setVideoParams (some ⟨.video, 27, [], 4, 4, 0, 0, 0, 0⟩) ⟨1, 1⟩,
      .sendMedia [5] .video false 0 true true]
    (fun s ↦ s.connections[0]?.any fun c ↦ c.client.dropped = 1 && c.client.queue.length = 4)
    (by decide)
  obtain ⟨c, hc, hlen⟩ := (Option.any_eq_true _ _).mp hs
  obtain ⟨hdropped, hqueue⟩ : c.client.dropped = 1 ∧ c.client.queue.length = 4 := by
    simpa using hlen
  have hmem := List.mem_of_getElem? hc
  exact ⟨s, c, hmem, hdropped, hqueue, queue_accounted ⟨_, hrun⟩ hmem⟩

end ZoneMinder.StreamSocket
