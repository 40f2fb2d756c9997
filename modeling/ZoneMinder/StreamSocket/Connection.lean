import Mathlib.Data.List.Flatten
import ZoneMinder.StreamSocket.Queue

namespace ZoneMinder.StreamSocket

open Lib

/-- What sendmsg reports: a byte count or an errno, EAGAIN and EWOULDBLOCK alike. -/
inductive SendResult
  | written (bytes : ℕ)
  | again
  | intr
  | failed
  deriving DecidableEq

/-- Where the listener stands in DrainClient. The mutex is free in every one of
these states; `failed` is a client whose drain returned false. -/
inductive Drain
  | idle
  | peeked (front : Message) (offset : ℕ)
  | returned (front : Message) (result : SendResult)
  | failed
  deriving DecidableEq

/-- A connected client, with what the peer has received and, as history, every
message EnqueueLocked was called with. -/
structure Connection where
  client : Client
  drain : Drain
  wire : Bytes
  enqueued : List Message
  deriving DecidableEq

def Connection.init (now : ℕ) : Connection := ⟨.init now, .idle, [], []⟩

def enqueue (cfg : Config) (m : Message) (c : Connection) : Connection :=
  { c with client := enqueueLocked cfg c.client m, enqueued := c.enqueued ++ [m] }

def iov (m : Message) (offset : ℕ) : List Bytes :=
  if offset < kHeaderSize then
    m.header.drop offset :: if 0 < m.payload.length then [m.payload] else []
  else [m.payload.drop (offset - kHeaderSize)]

theorem iov_flatten (m : Message) (offset : ℕ) : (iov m offset).flatten = m.bytes.drop offset := by
  unfold iov Message.bytes
  rw [List.drop_append, m.header_length]
  split
  · next h =>
    rw [Nat.sub_eq_zero_of_le h.le, List.drop_zero]
    cases hp : m.payload <;> simp
  · next h =>
    rw [List.drop_of_length_le (l := m.header) (by rw [m.header_length]; omega)]
    simp

/-- Peek and pin the front message, under the lock. -/
def peekFront (c : Connection) : Option Connection :=
  match c.drain, c.client.queue with
  | .idle, [] => some c
  | .idle, front :: _ => some { c with
      client := { c.client with frontInFlight := true }
      drain := .peeked front c.client.frontOffset }
  | _, _ => none

/-- The kernel copy, outside the lock. It takes any number of the bytes offered. -/
def sendMsg (result : SendResult) (c : Connection) : Option Connection :=
  match c.drain with
  | .peeked front offset =>
    match result with
    | .written n =>
      if n ≤ (iov front offset).flatten.length then
        some { c with
          wire := c.wire ++ (iov front offset).flatten.take n
          drain := .returned front result }
      else none
    | _ => some { c with drain := .returned front result }
  | _ => none

/-- The bookkeeping after sendmsg, under the lock. -/
def finishWrite (c : Connection) : Option Connection :=
  match c.drain with
  | .returned front result =>
    let client := { c.client with frontInFlight := false }
    match result with
    | .again | .intr => some { c with client := client, drain := .idle }
    | .failed => some { c with client := client, drain := .failed }
    | .written n =>
      let offset := client.frontOffset + n
      if front.size ≤ offset then
        some { c with
          client := { client with
            queuedBytes := client.queuedBytes - front.size
            queue := client.queue.tail
            frontOffset := 0
            sent := client.sent + 1 }
          drain := .idle }
      else some { c with client := { client with frontOffset := offset }, drain := .idle }
  | _ => none

def progress (c : Connection) : ℕ :=
  c.client.frontOffset + match c.drain with
    | .returned _ (.written n) => n
    | _ => 0

def frontBytes (c : Connection) : Bytes := (c.client.queue.head?.map Message.bytes).getD []

/-- DrainClient's own view of the front agrees with the queue. -/
def Drain.Agrees (c : Connection) : Drain → Prop
  | .idle | .failed => c.client.frontInFlight = false
  | .peeked front offset => c.client.frontInFlight = true ∧
      c.client.queue.head? = some front ∧ offset = c.client.frontOffset
  | .returned front _ => c.client.frontInFlight = true ∧ c.client.queue.head? = some front

/-- The connection invariant. `delivered` are the messages written completely. -/
structure Framed (delivered : List Message) (c : Connection) : Prop where
  thins : Thins (·.control) c.enqueued (delivered ++ c.client.queue)
  sent : delivered.length = c.client.sent
  count : c.enqueued.length = c.client.sent + c.client.dropped + c.client.queue.length
  bytes : c.client.queuedBytes = queueSize c.client.queue
  agrees : c.drain.Agrees c
  offset : c.client.frontOffset < (frontBytes c).length ∨ c.client.frontOffset = 0
  within : progress c ≤ (frontBytes c).length
  wire : c.wire = delivered.flatMap Message.bytes ++ (frontBytes c).take (progress c)

theorem framed_init (now : ℕ) : Framed [] (.init now) :=
  ⟨.nil, rfl, rfl, rfl, rfl, .inr rfl, le_rfl, rfl⟩

variable {delivered : List Message} {c c' : Connection}

theorem Framed.pinned_of_progress (h : Framed delivered c) (hp : 0 < progress c) :
    frontPinned c.client = true := by
  have ha := h.agrees
  unfold progress at hp
  unfold frontPinned
  split at hp
  · next hd =>
    rw [hd] at ha
    simp [ha.1]
  · simpa using Or.inl (show 0 < c.client.frontOffset by omega)

theorem Framed.front_of_pinned (h : Framed delivered c) (hp : frontPinned c.client = true) :
    ∃ front, c.client.queue.head? = some front := by
  have ha := h.agrees
  have ho := h.offset
  unfold frontPinned at hp
  cases hq : c.client.queue.head? with
  | some front => exact ⟨front, rfl⟩
  | none =>
    have hz : c.client.frontOffset = 0 := by simpa [frontBytes, hq] using ho
    cases hd : c.drain <;> simp [hd, hz, hq, Drain.Agrees] at ha hp <;> simp [ha] at hp

/-- A frame rule: what leaves the pinned front alone leaves the bytes in flight alone. -/
theorem Framed.frame (h : Framed delivered c) (hd : c'.drain = c.drain) (hw : c'.wire = c.wire)
    (ho : c'.client.frontOffset = c.client.frontOffset)
    (hi : c'.client.frontInFlight = c.client.frontInFlight)
    (hs : c'.client.sent = c.client.sent)
    (hf : frontPinned c.client = true → c'.client.queue.head? = c.client.queue.head?)
    (ht : Thins (·.control) c'.enqueued (delivered ++ c'.client.queue))
    (hc : c'.enqueued.length = c'.client.sent + c'.client.dropped + c'.client.queue.length)
    (hb : c'.client.queuedBytes = queueSize c'.client.queue) : Framed delivered c' := by
  have hprog : progress c' = progress c := by
    simp only [progress, ho, hd]
  have hflight : c.client.frontInFlight = true → frontPinned c.client = true := by
    intro hx
    simp [frontPinned, hx]
  have hfront : 0 < progress c → frontBytes c' = frontBytes c := by
    intro hp
    simp only [frontBytes, hf (h.pinned_of_progress hp)]
  refine ⟨ht, h.sent.trans hs.symm, hc, hb, ?_, ?_, ?_, ?_⟩
  · have ha := h.agrees
    rw [hd]
    cases hdr : c.drain with
    | idle => simpa only [hdr, Drain.Agrees, hi] using ha
    | failed => simpa only [hdr, Drain.Agrees, hi] using ha
    | peeked front offset =>
      simp only [hdr, Drain.Agrees] at ha ⊢
      rw [hi, ho, hf (hflight ha.1)]
      exact ha
    | returned front result =>
      simp only [hdr, Drain.Agrees] at ha ⊢
      rw [hi, hf (hflight ha.1)]
      exact ha
  · rw [ho]
    rcases Nat.eq_zero_or_pos c.client.frontOffset with hz | hz
    · exact .inr hz
    · rw [hfront (Nat.add_pos_left hz _)]
      exact h.offset
  · rw [hprog]
    rcases Nat.eq_zero_or_pos (progress c) with hz | hz
    · omega
    · rw [hfront hz]
      exact h.within
  · rw [hw, hprog, h.wire]
    rcases Nat.eq_zero_or_pos (progress c) with hz | hz
    · simp [hz]
    · rw [hfront hz]

theorem enqueue_framed (cfg : Config) (m : Message) (h : Framed delivered c) :
    Framed delivered (enqueue cfg m c) := by
  obtain ⟨r, htrim, -, hcase⟩ := enqueueLocked_cases cfg c.client m
  have ht : Thins (·.control) c.enqueued (delivered ++ r.queue) :=
    h.thins.trans ((Thins.refl delivered).append htrim.queue)
  have hcount := h.count
  have hrcount := htrim.count
  have hrsent := htrim.sent
  rcases hcase with ⟨-, hm, he⟩ | ⟨-, he⟩
  · refine h.frame rfl rfl ?_ ?_ ?_ ?_ ?_ ?_ ?_ <;> simp only [enqueue, he]
    · exact htrim.frontOffset
    · exact htrim.frontInFlight
    · exact htrim.sent
    · exact htrim.front
    · exact ht.snoc_drop hm
    · rw [List.length_append, List.length_singleton]
      omega
    · exact htrim.bytes h.bytes
  · refine h.frame rfl rfl ?_ ?_ ?_ (fun hp ↦ ?_) ?_ ?_ ?_ <;> simp only [enqueue, he]
    · exact htrim.frontOffset
    · exact htrim.frontInFlight
    · exact htrim.sent
    · obtain ⟨front, hfront⟩ := h.front_of_pinned hp
      rw [hfront, List.head?_append, htrim.front hp, hfront]
      rfl
    · rw [← List.append_assoc]
      exact ht.snoc m
    · rw [List.length_append, List.length_append, List.length_singleton]
      omega
    · rw [queueSize_append, htrim.bytes h.bytes]
      simp [queueSize]

theorem peekFront_framed (h : Framed delivered c) (hs : peekFront c = some c') :
    Framed delivered c' := by
  have ha := h.agrees
  have hw := h.wire
  have hp := h.within
  unfold peekFront at hs
  split at hs
  · obtain rfl := Option.some.inj hs
    exact h
  · next front rest hd hq =>
    obtain rfl := Option.some.inj hs
    simp only [progress, hd] at hw hp
    exact ⟨h.thins, h.sent, h.count, h.bytes, ⟨rfl, by simp [hq], rfl⟩, h.offset, hp, hw⟩
  · contradiction

theorem sendMsg_framed {result : SendResult} (h : Framed delivered c)
    (hs : sendMsg result c = some c') : Framed delivered c' := by
  have ha := h.agrees
  have hw := h.wire
  have hp := h.within
  unfold sendMsg at hs
  split at hs
  · next front offset hd =>
    simp only [hd, Drain.Agrees] at ha
    obtain ⟨hflight, hq, rfl⟩ := ha
    have hfront : frontBytes c = front.bytes := by simp [frontBytes, hq]
    simp only [progress, hd] at hw hp
    split at hs
    · next n =>
      split at hs
      · next hn =>
        obtain rfl := Option.some.inj hs
        rw [iov_flatten, List.length_drop] at hn
        refine ⟨h.thins, h.sent, h.count, h.bytes, ⟨hflight, hq⟩, h.offset, ?_, ?_⟩
        · change c.client.frontOffset + n ≤ (frontBytes c).length
          rw [hfront] at hp ⊢
          omega
        · change c.wire ++ _ = _ ++ (frontBytes c).take (c.client.frontOffset + n)
          rw [Nat.add_zero] at hw
          rw [hw, List.append_assoc, hfront, iov_flatten, List.take_add]
      · contradiction
    · next hr =>
      obtain rfl := Option.some.inj hs
      refine ⟨h.thins, h.sent, h.count, h.bytes, ⟨hflight, hq⟩, h.offset, ?_, ?_⟩ <;>
        cases result <;> first | exact hp | exact hw | exact absurd rfl (hr _)
  · contradiction

theorem finishWrite_framed (h : Framed delivered c) (hs : finishWrite c = some c') :
    ∃ delivered', Framed delivered' c' ∧
      delivered' ++ c'.client.queue = delivered ++ c.client.queue := by
  have ha := h.agrees
  have hw := h.wire
  have hp := h.within
  have ho := h.offset
  unfold finishWrite at hs
  split at hs
  · next front result hd =>
    dsimp only at hs
    simp only [hd, Drain.Agrees] at ha
    obtain ⟨-, hq⟩ := ha
    have hfront : frontBytes c = front.bytes := by simp [frontBytes, hq]
    obtain ⟨rest, hqueue⟩ : ∃ rest, c.client.queue = front :: rest :=
      ⟨c.client.queue.tail, (List.cons_head?_tail hq).symm⟩
    simp only [progress, hd] at hw hp
    split at hs
    · obtain rfl := Option.some.inj hs
      exact ⟨delivered, ⟨h.thins, h.sent, h.count, h.bytes, rfl, ho, hp, hw⟩, rfl⟩
    · obtain rfl := Option.some.inj hs
      exact ⟨delivered, ⟨h.thins, h.sent, h.count, h.bytes, rfl, ho, hp, hw⟩, rfl⟩
    · obtain rfl := Option.some.inj hs
      exact ⟨delivered, ⟨h.thins, h.sent, h.count, h.bytes, rfl, ho, hp, hw⟩, rfl⟩
    · next n =>
      rw [hfront, front.length_bytes] at hp
      split at hs
      · -- the whole front message is out: it is delivered and leaves the queue
        next hdone =>
        obtain rfl := Option.some.inj hs
        have hcount := h.count
        have hbytes := h.bytes
        rw [hqueue] at hcount hbytes
        rw [queueSize_cons] at hbytes
        refine ⟨delivered ++ [front], ⟨?_, ?_, ?_, ?_, rfl, .inr rfl, Nat.zero_le _, ?_⟩, ?_⟩
        · simpa only [hqueue, List.tail_cons, List.append_assoc, List.singleton_append]
            using h.thins
        · simp only [List.length_append, List.length_singleton, h.sent]
        · simp only [hqueue, List.tail_cons, List.length_cons] at hcount ⊢
          omega
        · simp only [hqueue, List.tail_cons]
          omega
        · simp only [progress, Nat.add_zero, List.take_zero, List.append_nil]
          rw [hw, hfront, List.take_of_length_le (by rw [front.length_bytes]; omega)]
          simp
        · rw [hqueue, List.tail_cons, List.append_assoc, List.singleton_append]
      · next hpart =>
        obtain rfl := Option.some.inj hs
        refine ⟨delivered, ⟨h.thins, h.sent, h.count, h.bytes, rfl, .inl ?_, ?_, hw⟩, rfl⟩
        · change c.client.frontOffset + n < (frontBytes c).length
          rw [hfront, front.length_bytes]
          omega
        · change c.client.frontOffset + n + 0 ≤ (frontBytes c).length
          rw [hfront, front.length_bytes]
          omega
  · contradiction

end ZoneMinder.StreamSocket
