import ZoneMinder.StreamSocket.Framing
import ZoneMinder.StreamSocket.Event

namespace ZoneMinder.StreamSocket

open Lib Function

def kMaxMessageLength : UInt32 := 32 * 1024 * 1024

def Header.payloadSize (header : Header) : UInt32 := header.length - kHeaderLengthBytes

def parseHeader (data : Bytes) : Option Header :=
  let header := readHeader data
  if header.version ≠ kProtocolVersion then none
  else if header.length < kHeaderLengthBytes ∨ kMaxMessageLength < header.length then none
  else some header

/-- What the next recv finds: some bytes, of which it may take a part, or a timeout or
signal. `stop` is the moment Stop sets terminate_. Behind the last arrival is EOF. -/
inductive Arrival
  | data (first : UInt8) (more : Bytes)
  | again
  | stop
  deriving DecidableEq

/-- The bytes the client can come to read. -/
def received : List Arrival → Bytes
  | [] | .stop :: _ => []
  | .again :: arrivals => received arrivals
  | .data first more :: arrivals => first :: more ++ received arrivals

def readExact : ℕ → List Arrival → Option (Bytes × List Arrival)
  | 0, arrivals => some ([], arrivals)
  | _ + 1, [] | _ + 1, .stop :: _ => none
  | len + 1, .again :: arrivals => readExact (len + 1) arrivals
  | len + 1, .data first more :: arrivals =>
    match more.drop len with
    | next :: rest => some (first :: more.take len, .data next rest :: arrivals)
    | [] => do
      let (rest, arrivals) ← readExact (len - more.length) arrivals
      return (first :: more ++ rest, arrivals)

/-- One round of ReadLoop: what it calls Dispatch with. -/
def readMessage (arrivals : List Arrival) : Option ((Header × Bytes) × List Arrival) := do
  let (headerBytes, arrivals) ← readExact kHeaderSize arrivals
  let header ← parseHeader headerBytes
  let (payload, arrivals) ← readExact header.payloadSize.toNat arrivals
  return ((header, payload), arrivals)

def readLoopFrom : ℕ → List Arrival → List (Header × Bytes)
  | 0, _ => []
  | rounds + 1, arrivals =>
    match readMessage arrivals with
    | none => []
    | some (message, arrivals) => message :: readLoopFrom rounds arrivals

/-- The calls of Dispatch. Every round but the last takes a header off the stream, so the
number of bytes bounds the number of rounds. -/
def readLoop (arrivals : List Arrival) : List (Header × Bytes) :=
  readLoopFrom ((received arrivals).length + 1) arrivals

def takeExact (len : ℕ) (bytes : Bytes) : Option (Bytes × Bytes) :=
  if bytes.length < len then none else some (bytes.take len, bytes.drop len)

/-- The same round over a stream that is not split. -/
def nextMessage (bytes : Bytes) : Option ((Header × Bytes) × Bytes) := do
  let (headerBytes, bytes) ← takeExact kHeaderSize bytes
  let header ← parseHeader headerBytes
  let (payload, bytes) ← takeExact header.payloadSize.toNat bytes
  return ((header, payload), bytes)

def messagesFrom : ℕ → Bytes → List (Header × Bytes)
  | 0, _ => []
  | rounds + 1, bytes =>
    match nextMessage bytes with
    | none => []
    | some (message, bytes) => message :: messagesFrom rounds bytes

theorem takeExact_append (first rest : Bytes) (len : ℕ) :
    takeExact (first.length + len) (first ++ rest) =
      (takeExact len rest).map fun r ↦ (first ++ r.1, r.2) := by
  rw [takeExact, takeExact, List.length_append]
  by_cases hlen : rest.length < len
  · rw [if_pos hlen, if_pos (by omega)]
    rfl
  · rw [if_neg hlen, if_neg (by omega), Option.map_some, List.take_length_add_append,
      List.drop_length_add_append]

/-- However recv splits the stream, ReadExact takes the next bytes off it. -/
theorem readExact_received (len : ℕ) (arrivals : List Arrival) :
    (readExact len arrivals).map (fun r ↦ (r.1, received r.2)) =
      takeExact len (received arrivals) := by
  induction arrivals generalizing len with
  | nil => cases len <;> rfl
  | cons arrival arrivals ih =>
    cases len with
    | zero => rfl
    | succ len =>
      cases arrival with
      | stop => rfl
      | again => exact ih (len + 1)
      | data first more =>
        rw [readExact, received]
        cases hmore : more.drop len with
        | cons next rest =>
          have hlen : len < more.length := by
            by_contra hle
            rw [List.drop_of_length_le (not_lt.mp hle)] at hmore
            contradiction
          have hsplit : first :: more ++ received arrivals =
              (first :: more.take len) ++ (next :: rest ++ received arrivals) := by
            rw [← hmore, List.cons_append, List.cons_append, ← List.append_assoc,
              List.take_append_drop]
          have htake : (first :: more.take len).length = len + 1 := by
            rw [List.length_cons, List.length_take, min_eq_left hlen.le]
          rw [hsplit, ← htake, ← Nat.add_zero (first :: more.take len).length, takeExact_append]
          rw [takeExact, if_neg (Nat.not_lt_zero _), List.take_zero, List.drop_zero,
            Option.map_some, Option.map_some, List.append_nil, received]
        | nil =>
          have hlen : more.length ≤ len := List.drop_eq_nil_iff.mp hmore
          have hsum : len + 1 = (first :: more).length + (len - more.length) := by
            rw [List.length_cons]
            omega
          rw [hsum, takeExact_append, ← ih]
          cases readExact (len - more.length) arrivals <;> rfl

theorem readMessage_received (arrivals : List Arrival) :
    (readMessage arrivals).map (fun r ↦ (r.1, received r.2)) = nextMessage (received arrivals) := by
  rw [readMessage, nextMessage, ← readExact_received]
  cases readExact kHeaderSize arrivals with
  | none => rfl
  | some r =>
    obtain ⟨headerBytes, arrivals⟩ := r
    dsimp only [Option.bind_eq_bind, Option.bind_some, Option.map_some]
    cases parseHeader headerBytes with
    | none => rfl
    | some header =>
      dsimp only [Option.bind_some]
      rw [← readExact_received]
      cases readExact header.payloadSize.toNat arrivals <;> rfl

theorem readLoopFrom_received (rounds : ℕ) (arrivals : List Arrival) :
    readLoopFrom rounds arrivals = messagesFrom rounds (received arrivals) := by
  induction rounds generalizing arrivals with
  | zero => rfl
  | succ rounds ih =>
    rw [readLoopFrom, messagesFrom, ← readMessage_received]
    cases readMessage arrivals with
    | none => rfl
    | some r => exact congrArg (r.1 :: ·) (ih r.2)

/-- A message as it stands on the wire. -/
def wireBytes (message : Header × Bytes) : Bytes := serializeHeader message.1 ++ message.2

/-- The header of every message the server frames: its version and its length. -/
def WellFramed (message : Header × Bytes) : Prop :=
  message.1.version = kProtocolVersion ∧
    message.1.length = kHeaderLengthBytes + UInt32.ofNat message.2.length

def maxPayload : ℕ := (kMaxMessageLength - kHeaderLengthBytes).toNat

variable {data bytes rest : Bytes} {header : Header} {m : Header × Bytes} {ms : List (Header × Bytes)}

theorem parseHeader_eq_some (h : parseHeader data = some header) :
    readHeader data = header ∧ header.payloadSize.toNat ≤ maxPayload := by
  rw [parseHeader] at h
  split at h
  · contradiction
  · split at h
    · contradiction
    · next hlength =>
      obtain rfl := Option.some.inj h
      refine ⟨rfl, ?_⟩
      obtain ⟨hmin, hmax⟩ := not_or.mp hlength
      rw [UInt32.not_lt, UInt32.le_iff_toNat_le] at hmin hmax
      rw [Header.payloadSize, UInt32.toNat_sub_of_le _ _ (UInt32.le_iff_toNat_le.mpr hmin)]
      exact Nat.sub_le_sub_right hmax 20

theorem parseHeader_serializeHeader (h : WellFramed m) (hfits : m.2.length ≤ maxPayload) :
    parseHeader (serializeHeader m.1) = some m.1 ∧ m.1.payloadSize.toNat = m.2.length := by
  obtain ⟨hversion, hlength⟩ := h
  have hmax : m.2.length ≤ 33554412 := hfits
  have hofNat : (UInt32.ofNat m.2.length).toNat = m.2.length := by
    rw [UInt32.toNat_ofNat']
    omega
  have htotal : m.1.length.toNat = 20 + m.2.length := by
    have hadd : m.1.length.toNat = (20 + m.2.length) % 2 ^ 32 := by
      rw [hlength, UInt32.toNat_add, hofNat]
      rfl
    omega
  have hheader : kHeaderLengthBytes.toNat = 20 := rfl
  have hcap : kMaxMessageLength.toNat = 33554432 := rfl
  have haccept : ¬(m.1.length < kHeaderLengthBytes ∨ kMaxMessageLength < m.1.length) := by
    rw [UInt32.lt_iff_toNat_lt, UInt32.lt_iff_toNat_lt]
    omega
  have hmin : kHeaderLengthBytes ≤ m.1.length := UInt32.not_lt.mp (not_or.mp haccept).1
  refine ⟨?_, ?_⟩
  · rw [parseHeader, readHeader_serializeHeader, if_neg (not_not.mpr hversion), if_neg haccept]
  · rw [Header.payloadSize, UInt32.toNat_sub_of_le _ _ hmin]
    omega

theorem nextMessage_wireBytes (h : WellFramed m) (hfits : m.2.length ≤ maxPayload) (rest : Bytes) :
    nextMessage (wireBytes m ++ rest) = some (m, rest) := by
  obtain ⟨hparse, hsize⟩ := parseHeader_serializeHeader h hfits
  have htake (first rest : Bytes) : takeExact first.length (first ++ rest) = some (first, rest) := by
    rw [← Nat.add_zero first.length, takeExact_append, takeExact, if_neg (Nat.not_lt_zero _),
      Option.map_some, List.take_zero, List.append_nil, List.drop_zero]
  rw [nextMessage, wireBytes, List.append_assoc, ← serializeHeader_length m.1, htake]
  dsimp only [Option.bind_eq_bind, Option.bind_some]
  rw [hparse, Option.bind_some, hsize, htake]
  rfl

/-- Part of a message is no message. -/
theorem nextMessage_take (h : WellFramed m) (hfits : m.2.length ≤ maxPayload) {k : ℕ}
    (hk : k < (wireBytes m).length) : nextMessage ((wireBytes m).take k) = none := by
  obtain ⟨hparse, hsize⟩ := parseHeader_serializeHeader h hfits
  have hlen : (wireBytes m).length = kHeaderSize + m.2.length := by
    rw [wireBytes, List.length_append, serializeHeader_length]
  rw [nextMessage, takeExact]
  split
  · rfl
  · next hheader =>
    rw [List.length_take] at hheader
    have htake : ((wireBytes m).take k).take kHeaderSize = serializeHeader m.1 := by
      rw [List.take_take, min_eq_left (by omega), wireBytes, ← serializeHeader_length m.1,
        List.take_left]
    dsimp only [Option.bind_eq_bind, Option.bind_some]
    rw [htake, hparse, Option.bind_some, hsize, takeExact, if_pos]
    · rfl
    · rw [List.length_drop, List.length_take]
      omega

theorem nextMessage_fits (h : nextMessage bytes = some (m, rest)) : m.2.length ≤ maxPayload := by
  obtain ⟨⟨headerBytes, bytes⟩, -, h⟩ := Option.bind_eq_some_iff.mp h
  obtain ⟨header, hparse, h⟩ := Option.bind_eq_some_iff.mp h
  obtain ⟨⟨payload, bytes⟩, htake, h⟩ := Option.bind_eq_some_iff.mp h
  obtain ⟨rfl, rfl⟩ := Prod.mk.inj (Option.some.inj h)
  rw [takeExact] at htake
  split at htake
  · contradiction
  · obtain ⟨rfl, -⟩ := Prod.mk.inj (Option.some.inj htake)
    rw [List.length_take]
    exact (min_le_left _ _).trans (parseHeader_eq_some hparse).2

theorem messagesFrom_fits {rounds : ℕ} (hm : m ∈ messagesFrom rounds bytes) :
    m.2.length ≤ maxPayload := by
  induction rounds generalizing bytes with
  | zero => contradiction
  | succ rounds ih =>
    rw [messagesFrom] at hm
    cases hnext : nextMessage bytes with
    | none =>
      rw [hnext] at hm
      contradiction
    | some r =>
      rw [hnext] at hm
      rcases List.mem_cons.mp hm with rfl | hm
      · exact nextMessage_fits hnext
      · exact ih hm

theorem messagesFrom_append {rounds : ℕ}
    (h : ∀ m ∈ ms, WellFramed m ∧ m.2.length ≤ maxPayload) (rest : Bytes) :
    messagesFrom (ms.length + rounds) (ms.flatMap wireBytes ++ rest) =
      ms ++ messagesFrom rounds rest := by
  induction ms with
  | nil => rw [List.length_nil, Nat.zero_add, List.flatMap_nil, List.nil_append, List.nil_append]
  | cons m ms ih =>
    obtain ⟨hwell, hfits⟩ := h m List.mem_cons_self
    rw [List.length_cons, Nat.add_right_comm, messagesFrom, List.flatMap_cons, List.append_assoc,
      nextMessage_wireBytes hwell hfits]
    exact congrArg (m :: ·) (ih fun m hm ↦ h m (List.mem_cons_of_mem _ hm))

theorem length_le_flatMap_wireBytes (ms : List (Header × Bytes)) :
    ms.length ≤ (ms.flatMap wireBytes).length := by
  induction ms with
  | nil => exact le_rfl
  | cons m ms ih =>
    rw [List.length_cons, List.flatMap_cons, List.length_append, wireBytes, List.length_append,
      serializeHeader_length, kHeaderSize]
    omega

/-- ReadLoop over messages within the limit, with no further one behind them. -/
theorem readLoop_append {arrivals : List Arrival}
    (h : ∀ m ∈ ms, WellFramed m ∧ m.2.length ≤ maxPayload) (hrest : nextMessage rest = none)
    (hbytes : received arrivals = ms.flatMap wireBytes ++ rest) : readLoop arrivals = ms := by
  have hlen := length_le_flatMap_wireBytes ms
  have hrounds : (ms.flatMap wireBytes ++ rest).length + 1 =
      ms.length + ((ms.flatMap wireBytes ++ rest).length - ms.length + 1) := by
    rw [List.length_append]
    omega
  rw [readLoop, readLoopFrom_received, hbytes, hrounds, messagesFrom_append h, messagesFrom, hrest,
    List.append_nil]

/-- The client receives every message exactly if each is within its limit. -/
theorem readLoop_eq_iff {arrivals : List Arrival} (h : ∀ m ∈ ms, WellFramed m)
    (hbytes : received arrivals = ms.flatMap wireBytes) :
    readLoop arrivals = ms ↔ ∀ m ∈ ms, m.2.length ≤ maxPayload := by
  constructor
  · intro heq m hm
    rw [← heq, readLoop, readLoopFrom_received] at hm
    exact messagesFrom_fits hm
  · intro hfits
    rw [← List.append_nil (ms.flatMap wireBytes)] at hbytes
    exact readLoop_append (fun m hm ↦ ⟨h m hm, hfits m hm⟩) rfl hbytes

/-- The payloads of which nothing too large for the client gets into a queue. -/
def Fits (cfg : Config) (control : Bool) (payload : Bytes) : Prop :=
  payload.length ≤ maxPayload ∨
    control = false ∧ cfg.queueMaxBytes < kHeaderSize + payload.length

theorem appendTlv_length {out : Bytes} {n : ℕ} (h : out.length ≤ n) (tag : UInt8) (value : Bytes)
    (len : UInt16) : (appendTlv out tag value len).length ≤ n + 65538 := by
  have hlen := len.toNat_lt
  rw [appendTlv, List.length_append, List.length_append, List.length_append, List.length_take,
    putU16_length, List.length_singleton]
  omega

theorem appendTlvU32If_length {out : Bytes} {n : ℕ} (h : out.length ≤ n) (cond : Bool) (tag : UInt8)
    (value : UInt32) : (appendTlvU32If cond tag value out).length ≤ n + 65538 := by
  rw [appendTlvU32If]
  split
  · exact appendTlv_length h tag (putU32 value) 4
  · omega

/-- At most nine TLVs of at most 64 KiB. -/
theorem buildHello_length (codecName : UInt32 → Bytes) (par : CodecParameters) (rate : Rational) :
    (buildHello codecName par rate).length ≤ maxPayload := by
  have hid := appendTlv_length (show ([] : Bytes).length ≤ 0 from Nat.le_refl 0) kTlvCodecId (putU32 par.codecId) 4
  have hname := appendTlv_length hid kTlvCodecName (codecName par.codecId)
    (if kMaxTlvValueSize < (codecName par.codecId).length then 0xffff
      else UInt16.ofNat (codecName par.codecId).length)
  rw [buildHello]
  dsimp only
  generalize hout : (if par.extradata = [] ∨ kMaxTlvValueSize < par.extradata.length
    then appendTlvStr _ _ _ else _) = out
  have hextra : out.length ≤ 0 + 65538 + 65538 + 65538 := by
    rw [← hout]
    split
    · exact hname.trans (Nat.le_add_right _ _)
    · exact appendTlv_length hname _ _ _
  have hif {out : Bytes} {n : ℕ} (h : out.length ≤ n) := appendTlvU32If_length h
  cases par.codecType with
  | video => exact (hif (hif (hif (hif (hif (hif hextra ..) ..) ..) ..) ..) ..).trans (by decide)
  | audio => exact (hif (hif (hif (hif hextra ..) ..) ..) ..).trans (by decide)
  | other => exact (hif (hif hextra ..) ..).trans (by decide)

theorem helloPayload_length (codecName : UInt32 → Bytes) (par : Option CodecParameters)
    (rate : Rational) : (helloPayload codecName par rate).length ≤ maxPayload := by
  cases par with
  | none => exact Nat.zero_le _
  | some par =>
    rw [helloPayload]
    split
    · exact Nat.zero_le _
    · exact buildHello_length codecName par rate

theorem buildEvent_length (ev : MonitorEvent) : (buildEvent ev).length ≤ maxPayload := by
  have hone (c : Prop) [Decidable c] (t : Tlv) : (encodeTlvs (optional c t)).length ≤ 65538 := by
    have hfits := t.fits
    rw [optional]
    split
    · rw [encodeTlvs, List.flatMap_singleton, t.encode_length]
      omega
    · exact Nat.zero_le _
  rw [buildEvent_eq, eventTlvs, List.length_append, putU16_length]
  simp only [encodeTlvs_append, List.length_append]
  refine le_trans (b := 2 + (65538 + 65538 + 65538 + 65538 + 65538 + 65538 + 65538)) ?_ (by decide)
  gcongr <;> exact hone _ _

def Message.dispatched (m : Message) : Header × Bytes := (m.decoded, m.payload)

/-- What the queue of a client holds and what it was sent: messages the client accepts. -/
structure Message.Accepted (m : Message) : Prop where
  header : m.header = serializeHeader m.decoded
  framed : WellFramed m.dispatched
  fits : m.payload.length ≤ maxPayload

theorem Message.Accepted.parseHeader {m : Message} (h : m.Accepted) :
    parseHeader m.header = some m.decoded := by
  rw [h.header]
  exact (parseHeader_serializeHeader h.framed h.fits).1

theorem Message.Accepted.bytes_eq {m : Message} (h : m.Accepted) :
    m.bytes = wireBytes m.dispatched := by
  rw [Message.bytes, h.header]
  rfl

/-- The operations the source performs: it frames BuildEvent's payloads as events, and its
packets are those that fit the client or no queue. -/
def Op.Sendable (cfg : Config) : Op → Prop
  | .sendMedia packet .. =>
    packet.length ≤ maxPayload ∨ cfg.queueMaxBytes < kHeaderSize + packet.length
  | .sendMonitorEvent payload | .setSnapshotEvent payload => ∃ ev, payload = buildEvent ev
  | _ => True

variable {cfg : Config} {codecName : UInt32 → Bytes} {ops : List Op} {s : Socket} {c : Connection}

theorem Op.Sendable.carries {op : Op} (h : op.Sendable cfg) : op.Carries (Fits cfg) := by
  cases op with
  | sendMedia => exact h.imp_right fun hlarge ↦ ⟨rfl, hlarge⟩
  | sendMonitorEvent payload =>
    obtain ⟨ev, rfl⟩ := h
    exact .inl (buildEvent_length ev)
  | setSnapshotEvent payload =>
    obtain ⟨ev, rfl⟩ := h
    exact .inl (buildEvent_length ev)
  | _ => trivial

theorem run_accepted
    (h : Run (step cfg codecName) (fun _ op ↦ op.Sendable cfg) .init ops s) (hc : c ∈ s.connections) :
    FramedWith Message.Accepted c := by
  have hmake : Makes (fun m ↦ Queueable cfg m → m.Accepted) (Fits cfg) := by
    intro generation type stream flags sequence ptsUs payload hfits hqueue
    refine ⟨?_, ?_, ?_⟩
    · rw [makeMessage, decoded_frame]
      rfl
    · rw [Message.dispatched, makeMessage, decoded_frame]
      exact ⟨rfl, rfl⟩
    · rcases hfits with hfits | ⟨hcontrol, hlarge⟩
      · exact hfits
      · rcases hqueue with hcontrol' | hsize
        · rw [makeMessage, control_frame, hcontrol] at hcontrol'
          contradiction
        · exact absurd hsize (not_le.mpr hlarge)
  have hfit : Fitting codecName (Fits cfg) :=
    ⟨.inl (Nat.zero_le _), fun par rate ↦ .inl (helloPayload_length codecName par rate),
      fun _ _ ↦ .inl (show 16 ≤ maxPayload by decide)⟩
  exact (run_framed hmake hfit (fun m hm hq ↦ hm hq) (h.mono fun _ _ ↦ Op.Sendable.carries) c hc).1

/-- What a client dispatches of what it has been sent: every message sent completely, and
the one being written once all of it is out. -/
theorem wire_dispatched
    (h : Run (step cfg codecName) (fun _ op ↦ op.Sendable cfg) .init ops s) (hc : c ∈ s.connections)
    {arrivals : List Arrival} (hbytes : received arrivals = c.wire) :
    ∃ delivered, delivered.length = c.client.sent ∧
      delivered.map Message.dispatched <+: readLoop arrivals ∧
      readLoop arrivals <+: (delivered ++ c.client.queue).map Message.dispatched := by
  obtain ⟨delivered, hd, haccept⟩ := run_accepted h hc
  have hbytes_eq (l : List Message) (hl : l ⊆ delivered ++ c.client.queue) :
      l.flatMap Message.bytes = (l.map Message.dispatched).flatMap wireBytes := by
    rw [List.flatMap_map]
    exact List.flatMap_congr fun m hm ↦ (haccept m (hl hm)).bytes_eq
  have hfits (l : List Message) (hl : l ⊆ delivered ++ c.client.queue) :
      ∀ m ∈ l.map Message.dispatched, WellFramed m ∧ m.2.length ≤ maxPayload := by
    intro sent hsent
    obtain ⟨m, hm, rfl⟩ := List.mem_map.mp hsent
    exact ⟨(haccept m (hl hm)).framed, (haccept m (hl hm)).fits⟩
  have hsub : delivered ⊆ delivered ++ c.client.queue := List.subset_append_left _ _
  have hpart (hnext : nextMessage ((frontBytes c).take (progress c)) = none) :
      readLoop arrivals = delivered.map Message.dispatched :=
    readLoop_append (hfits _ hsub) hnext (by rw [hbytes, hd.wire, hbytes_eq _ hsub])
  refine ⟨delivered, hd.sent, ?_⟩
  cases hqueue : c.client.queue with
  | nil =>
    have hfront : frontBytes c = [] := by rw [frontBytes, hqueue]; rfl
    rw [hpart (by rw [hfront, List.take_nil]; rfl), List.append_nil]
    exact ⟨List.prefix_refl _, List.prefix_refl _⟩
  | cons front rest =>
    have hfront : frontBytes c = front.bytes := by rw [frontBytes, hqueue]; rfl
    have hmem : front ∈ delivered ++ c.client.queue := by
      rw [hqueue]
      exact List.mem_append_right _ List.mem_cons_self
    have hfrontBytes := (haccept front hmem).bytes_eq
    rcases Nat.lt_or_ge (progress c) front.bytes.length with hk | hk
    · rw [hpart]
      · exact ⟨List.prefix_refl _, by rw [List.map_append]; exact List.prefix_append _ _⟩
      · rw [hfront, hfrontBytes]
        rw [hfrontBytes] at hk
        exact nextMessage_take (haccept front hmem).framed (haccept front hmem).fits hk
    · have hfull : delivered ++ [front] ⊆ delivered ++ c.client.queue :=
        List.append_subset.mpr ⟨hsub, List.cons_subset.mpr ⟨hmem, List.nil_subset _⟩⟩
      rw [@readLoop_append [] ((delivered ++ [front]).map Message.dispatched) arrivals
        (hfits _ hfull) rfl]
      · rw [List.map_append, List.map_append]
        exact ⟨List.prefix_append _ _, by simp⟩
      · rw [hbytes, hd.wire, hfront, List.take_of_length_le hk, List.append_nil,
          ← hbytes_eq _ hfull, List.flatMap_append, List.flatMap_singleton]

theorem enqueueLocked_of_fits {client : Client} {m : Message}
    (h : overLimit cfg client m = false) :
    enqueueLocked cfg client m = { client with
      queue := client.queue ++ [m], queuedBytes := client.queuedBytes + m.size } := by
  have hroom (rounds : ℕ) : makeRoom cfg m rounds client = client := by
    cases rounds with
    | zero => rfl
    | succ rounds => rw [makeRoom, if_neg (by rw [h]; simp)]
  rw [enqueueLocked, hroom, h]
  rfl

theorem sendMedia_video (cfg : Config) {packet : Bytes} (hpacket : packet ≠ [])
    (hhello : s.helloPayload .video ≠ []) (hclients : s.connections ≠ []) (ptsUs : Int64) :
    sendMedia cfg packet .video false ptsUs true true s =
      broadcastLocked cfg (makeMessage s.generation .media .video 0 (s.sequence .video) ptsUs packet
        false) { s with sequence := update s.sequence .video (s.sequence .video + 1) } := by
  rw [sendMedia, if_neg hpacket, if_neg (by decide), if_neg hhello]
  exact if_pos ⟨hclients, rfl⟩

/-- With a queue of 64 MiB and one video client, a packet of one byte more than the client
takes is queued behind the HELLO, and the client gives up the connection at its header. -/
theorem oversized_packet_queued : ∃ (ops : List Op) (s : Socket) (c : Connection) (m : Message),
    Run (step ⟨[], 8, 64 * 1024 * 1024, 64, 5⟩ fun _ ↦ [104]) (fun _ _ ↦ True) .init ops s ∧
    c ∈ s.connections ∧ m ∈ c.client.queue ∧ m.payload.length = 33554413 ∧
    parseHeader m.header = none := by
  obtain ⟨s, hrun, hs⟩ := Run.exists_of_any (step ⟨[], 8, 64 * 1024 * 1024, 64, 5⟩ fun _ ↦ [104])
    (fun _ _ ↦ True) .init
    [.acceptClient 0 none 0, .setVideoParams (some ⟨.video, 27, [], 4, 4, 0, 0, 0, 0⟩) ⟨1, 1⟩]
    (fun s ↦ s.helloPayload .video ≠ [] && s.connections[0]?.any fun c ↦
      c.client.queuedBytes < 1024 && c.client.queue.length < 8)
    (by decide)
  obtain ⟨hhello, hconn⟩ : s.helloPayload .video ≠ [] ∧ _ := by simpa only [Bool.and_eq_true, decide_eq_true_eq] using hs
  obtain ⟨c, hc, hroom⟩ := (Option.any_eq_true _ _).mp hconn
  obtain ⟨hbytes, hqueue⟩ : c.client.queuedBytes < 1024 ∧ c.client.queue.length < 8 := by
    simpa using hroom
  have hmem := List.mem_of_getElem? hc
  have hpacket : (List.replicate 33554413 (0 : UInt8)).length = 33554413 := List.length_replicate
  generalize List.replicate 33554413 (0 : UInt8) = packet at hpacket
  have hne : packet ≠ [] := List.ne_nil_of_length_pos (by omega)
  have hsend : step ⟨[], 8, 64 * 1024 * 1024, 64, 5⟩ (fun _ ↦ [104]) s
      (.sendMedia packet .video false 0 true true) = some _ :=
    congrArg some (sendMedia_video _ hne hhello (List.ne_nil_of_mem hmem) 0)
  refine ⟨_, _, _,
    makeMessage s.generation .media .video 0 (s.sequence .video) 0 packet false,
    hrun.trans (.one trivial hsend), List.mem_map_of_mem hmem, ?_, hpacket, ?_⟩
  · rw [enqueue, enqueueLocked_of_fits]
    · exact List.mem_append_right _ List.mem_cons_self
    · have hsize : (makeMessage s.generation .media .video 0 (s.sequence .video) 0 packet
          false).size = 24 + packet.length := rfl
      rw [overLimit, hsize, Bool.or_eq_false_iff, decide_eq_false_iff_not, decide_eq_false_iff_not]
      dsimp only
      omega
  · have hlarge : kMaxMessageLength < kHeaderLengthBytes + UInt32.ofNat 33554413 := by decide
    rw [makeMessage, frame, parseHeader, readHeader_serializeHeader, hpacket,
      if_neg (not_not.mpr rfl), if_pos (.inr hlarge)]

/-- What the client dispatches is what the server framed, and the client accepts whatever
the server queues, as long as no message is larger than the client's limit. -/
theorem stream_agreed (cfg : Config) (codecName : UInt32 → Bytes) :
    (∀ (ms : List (Header × Bytes)) (arrivals : List Arrival), (∀ m ∈ ms, WellFramed m) →
      received arrivals = ms.flatMap wireBytes →
      (readLoop arrivals = ms ↔ ∀ m ∈ ms, m.2.length ≤ maxPayload)) ∧
    ∀ (ops : List Op) (s : Socket),
      Run (step cfg codecName) (fun _ op ↦ op.Sendable cfg) .init ops s → ∀ c ∈ s.connections,
      ∃ delivered, Framed delivered c ∧
        ∀ m ∈ delivered ++ c.client.queue, parseHeader m.header = some m.decoded := by
  refine ⟨fun ms arrivals h hbytes ↦ readLoop_eq_iff h hbytes, ?_⟩
  intro ops s hrun c hc
  obtain ⟨delivered, hd, haccept⟩ := run_accepted hrun hc
  exact ⟨delivered, hd, fun m hm ↦ (haccept m hm).parseHeader⟩

/-- A BYE split after its third byte, and a packet split after the first of its two bytes; and a
client that has two messages in its queue, of which the first is being written. -/
theorem stream_agreed_split :
    readLoop [.data 20 [0, 0], .again,
      .data 0 ([1, 5, 0, 0] ++ List.replicate 16 0 ++ [22, 0, 0, 0, 1, 2, 0, 0, 0, 0, 0, 0, 1] ++
        List.replicate 11 0 ++ [9]), .again, .data 8 []] =
          [(⟨20, 1, 5, 0, 0, 0, 0, 0⟩, []), (⟨22, 1, 2, 0, 0, 0, 1, 0⟩, [9, 8])] ∧
    ∃ (s : Socket) (c : Connection), c ∈ s.connections ∧ c.wire.length = 10 ∧
      c.client.queue.length = 2 ∧ ∃ delivered, Framed delivered c ∧
        ∀ m ∈ delivered ++ c.client.queue, parseHeader m.header = some m.decoded := by
  constructor
  · apply ((stream_agreed ⟨[], 8, 1000, 16, 5⟩ fun _ ↦ []).1 _ _ _ _).mpr
    · simp only [List.mem_cons, forall_eq_or_imp, List.not_mem_nil, IsEmpty.forall_iff,
        implies_true, and_true]
      decide
    · simp [WellFramed]
      decide
    · decide
  · obtain ⟨s, hrun, hs⟩ := Run.exists_of_any (step ⟨[], 8, 1000, 16, 5⟩ fun _ ↦ [104])
      (fun _ op ↦ (match op with
        | .sendMedia packet .. => decide (packet.length ≤ maxPayload)
        | .sendMonitorEvent _ | .setSnapshotEvent _ => false
        | _ => true) = true) .init
      [.acceptClient 0 none 0, .setVideoParams (some ⟨.video, 27, [], 4, 4, 0, 0, 0, 0⟩) ⟨1, 1⟩,
        .sendMedia [5] .video true 0 true true, .peekFront 0, .sendMsg 0 (.written 10)]
      (fun s ↦ s.connections[0]?.any fun c ↦ c.wire.length = 10 && c.client.queue.length = 2)
      (by decide)
    obtain ⟨c, hc, hlen⟩ := (Option.any_eq_true _ _).mp hs
    obtain ⟨hwire, hqueue⟩ : c.wire.length = 10 ∧ c.client.queue.length = 2 := by
      simpa using hlen
    have hmem := List.mem_of_getElem? hc
    have hsend := hrun.mono (Q := fun _ op ↦ op.Sendable ⟨[], 8, 1000, 16, 5⟩) fun _ op hop ↦ by
      cases op with
      | sendMedia => exact .inl (of_decide_eq_true hop)
      | sendMonitorEvent => cases hop
      | setSnapshotEvent => cases hop
      | _ => trivial
    exact ⟨s, c, hmem, hwire, hqueue, (stream_agreed _ _).2 _ s hsend c hmem⟩

end ZoneMinder.StreamSocket
