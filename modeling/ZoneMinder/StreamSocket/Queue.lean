import ZoneMinder.Lib.Keyed
import ZoneMinder.StreamSocket.Protocol

namespace ZoneMinder.StreamSocket

open Lib

structure Config where
  allowedUids : List ℕ
  maxClients : ℕ
  queueMaxBytes : ℕ
  queueMaxMsgs : ℕ
  statsInterval : ℕ

/-- One protocol message, serialized once and shared across all client queues. -/
structure Message where
  header : Bytes
  payload : Bytes
  control : Bool
  header_length : header.length = kHeaderSize
  deriving DecidableEq

namespace Message

def size (m : Message) : ℕ := kHeaderSize + m.payload.length

def bytes (m : Message) : Bytes := m.header ++ m.payload

@[simp] theorem length_bytes (m : Message) : m.bytes.length = m.size := by
  rw [bytes, List.length_append, m.header_length, size]

end Message

structure Client where
  queue : List Message
  queuedBytes : ℕ
  frontOffset : ℕ
  frontInFlight : Bool
  sent : ℕ
  dropped : ℕ
  lastStats : ℕ
  deriving DecidableEq

def Client.init (now : ℕ) : Client := ⟨[], 0, 0, false, 0, 0, now⟩

def frontPinned (c : Client) : Bool := 0 < c.frontOffset || c.frontInFlight

/-- The test EnqueueLocked makes before and after dropping: would `m` exceed a limit? -/
def overLimit (cfg : Config) (c : Client) (m : Message) : Bool :=
  cfg.queueMaxBytes < c.queuedBytes + m.size || cfg.queueMaxMsgs < c.queue.length + 1

/-- The part of the queue EnqueueLocked never drops from: the front while it is pinned. -/
def pinnedPart (c : Client) : List Message := if frontPinned c then c.queue.take 1 else []

def droppablePart (c : Client) : List Message := if frontPinned c then c.queue.drop 1 else c.queue

/-- One round of the loop in EnqueueLocked: erase the oldest non-control message. -/
def dropOldest (c : Client) : Option Client :=
  match (droppablePart c).find? (fun m ↦ !m.control) with
  | none => none
  | some victim => some { c with
      queue := pinnedPart c ++ (droppablePart c).eraseP (fun m ↦ !m.control)
      queuedBytes := c.queuedBytes - victim.size
      dropped := c.dropped + 1 }

/-- The loop of EnqueueLocked. Every round shortens the queue, so the queue's
length bounds the number of rounds. -/
def makeRoom (cfg : Config) (m : Message) : ℕ → Client → Client
  | 0, c => c
  | rounds + 1, c =>
    if c.queue ≠ [] ∧ overLimit cfg c m = true then
      match dropOldest c with
      | none => c
      | some c' => makeRoom cfg m rounds c'
    else c

def enqueueLocked (cfg : Config) (c : Client) (m : Message) : Client :=
  let c := makeRoom cfg m c.queue.length c
  if overLimit cfg c m && !m.control then { c with dropped := c.dropped + 1 }
  else { c with queue := c.queue ++ [m], queuedBytes := c.queuedBytes + m.size }

def queueSize (q : List Message) : ℕ := (q.map Message.size).sum

@[simp] theorem queueSize_append (q r : List Message) :
    queueSize (q ++ r) = queueSize q + queueSize r := by
  simp [queueSize]

@[simp] theorem queueSize_cons (m : Message) (q : List Message) :
    queueSize (m :: q) = m.size + queueSize q := by
  simp [queueSize]

theorem pinned_append_droppable (c : Client) : pinnedPart c ++ droppablePart c = c.queue := by
  unfold pinnedPart droppablePart
  split
  · exact List.take_append_drop 1 c.queue
  · rfl

theorem queueSize_eraseP {q : List Message} {p : Message → Bool} {victim : Message}
    (h : q.find? p = some victim) : queueSize q = victim.size + queueSize (q.eraseP p) := by
  induction q with
  | nil => simp at h
  | cons a q ih =>
    cases hp : p a
    · have hq := ih (by simpa [List.find?_cons, hp] using h)
      simp only [List.eraseP_cons, hp, cond_false, queueSize_cons, hq]
      omega
    · obtain rfl : a = victim := by simpa [List.find?_cons, hp] using h
      simp [hp]

theorem length_eraseP_of_find {q : List Message} {p : Message → Bool} {victim : Message}
    (h : q.find? p = some victim) : (q.eraseP p).length + 1 = q.length := by
  have hm := List.mem_of_find?_eq_some h
  have hp := List.find?_some h
  rw [List.length_eraseP_of_mem hm hp]
  have hq := List.length_pos_of_mem hm
  omega

/-- Everything the drop loop may do to a client: it thins the queue of
non-control messages, spares the pinned front and keeps the accounts. -/
structure Trims (c c' : Client) : Prop where
  queue : Thins (·.control) c.queue c'.queue
  front : frontPinned c = true → c'.queue.head? = c.queue.head?
  bytes : c.queuedBytes = queueSize c.queue → c'.queuedBytes = queueSize c'.queue
  count : c'.dropped + c'.queue.length = c.dropped + c.queue.length
  frontOffset : c'.frontOffset = c.frontOffset
  frontInFlight : c'.frontInFlight = c.frontInFlight
  sent : c'.sent = c.sent

namespace Trims

theorem refl (c : Client) : Trims c c :=
  ⟨.refl _, fun _ ↦ rfl, fun h ↦ h, rfl, rfl, rfl, rfl⟩

theorem pinned {c c' : Client} (h : Trims c c') : frontPinned c' = frontPinned c := by
  simp only [frontPinned, h.frontOffset, h.frontInFlight]

theorem trans {c c' c'' : Client} (h : Trims c c') (h' : Trims c' c'') : Trims c c'' where
  queue := h.queue.trans h'.queue
  front hp := (h'.front (h.pinned.trans hp)).trans (h.front hp)
  bytes hb := h'.bytes (h.bytes hb)
  count := h'.count.trans h.count
  frontOffset := h'.frontOffset.trans h.frontOffset
  frontInFlight := h'.frontInFlight.trans h.frontInFlight
  sent := h'.sent.trans h.sent

end Trims

theorem dropOldest_trims {c c' : Client} (h : dropOldest c = some c') : Trims c c' := by
  unfold dropOldest at h
  split at h
  · contradiction
  · next victim hv =>
    obtain rfl := Option.some.inj h
    have hlen := length_eraseP_of_find hv
    have hsize := queueSize_eraseP hv
    have hparts := pinned_append_droppable c
    refine ⟨?_, fun hp ↦ ?_, fun hb ↦ ?_, ?_, rfl, rfl, rfl⟩
    · have ht := (Thins.refl (p := (·.control)) (pinnedPart c)).append
        (Thins.eraseP (p := (·.control)) (droppablePart c))
      rwa [hparts] at ht
    · cases hq : c.queue with
      | nil => simp [droppablePart, hq] at hv
      | cons front rest => simp [pinnedPart, hp, hq]
    · rw [← hparts, queueSize_append] at hb
      simp only [queueSize_append]
      omega
    · rw [← hparts]
      simp only [List.length_append]
      omega

theorem makeRoom_trims (cfg : Config) (m : Message) (rounds : ℕ) (c : Client) :
    Trims c (makeRoom cfg m rounds c) := by
  induction rounds generalizing c with
  | zero => exact .refl c
  | succ rounds ih =>
    unfold makeRoom
    split
    · cases hd : dropOldest c with
      | none => exact .refl c
      | some c' => exact (dropOldest_trims hd).trans (ih c')
    · exact .refl c

theorem makeRoom_stops (cfg : Config) (m : Message) (rounds : ℕ) (c : Client)
    (h : c.queue.length ≤ rounds) :
    (makeRoom cfg m rounds c).queue = [] ∨ overLimit cfg (makeRoom cfg m rounds c) m = false ∨
      dropOldest (makeRoom cfg m rounds c) = none := by
  induction rounds generalizing c with
  | zero => exact .inl (List.eq_nil_of_length_eq_zero (Nat.le_zero.mp h))
  | succ rounds ih =>
    unfold makeRoom
    split
    · cases hd : dropOldest c with
      | none => exact .inr (.inr hd)
      | some c' =>
        have hc := (dropOldest_trims hd).count
        have hlt : c'.dropped = c.dropped + 1 := by
          unfold dropOldest at hd
          split at hd
          · contradiction
          · obtain rfl := Option.some.inj hd
            rfl
        exact ih c' (by omega)
    · next hg =>
      rcases Classical.not_and_iff_not_or_not.mp hg with hq | ho
      · exact .inl (not_not.mp hq)
      · exact .inr (.inl (Bool.not_eq_true _ ▸ ho))

/-- Everything EnqueueLocked may do: a trim, then the message is queued or,
when it is no control message, dropped itself. -/
theorem enqueueLocked_cases (cfg : Config) (c : Client) (m : Message) :
    ∃ r, Trims c r ∧ (r.queue = [] ∨ overLimit cfg r m = false ∨ dropOldest r = none) ∧
      ((overLimit cfg r m = true ∧ m.control = false ∧
          enqueueLocked cfg c m = { r with dropped := r.dropped + 1 }) ∨
       ((overLimit cfg r m = false ∨ m.control = true) ∧ enqueueLocked cfg c m =
          { r with queue := r.queue ++ [m], queuedBytes := r.queuedBytes + m.size })) := by
  refine ⟨makeRoom cfg m c.queue.length c, makeRoom_trims cfg m _ c,
    makeRoom_stops cfg m _ c le_rfl, ?_⟩
  unfold enqueueLocked
  cases ho : overLimit cfg (makeRoom cfg m c.queue.length c) m <;> cases hm : m.control <;>
    simp [ho]

/-- What may get into a queue: control messages, and those no larger than the limit. -/
def Queueable (cfg : Config) (m : Message) : Prop := m.control = true ∨ m.size ≤ cfg.queueMaxBytes

theorem enqueueLocked_mem {cfg : Config} {c : Client} {m x : Message}
    (hx : x ∈ (enqueueLocked cfg c m).queue) : x ∈ c.queue ∨ x = m ∧ Queueable cfg m := by
  obtain ⟨r, htrim, -, hcase⟩ := enqueueLocked_cases cfg c m
  have hsub := htrim.queue.sublist.subset
  rcases hcase with ⟨-, -, he⟩ | ⟨hm, he⟩ <;> rw [he] at hx
  · exact .inl (hsub hx)
  · rcases List.mem_append.mp hx with hx | hx
    · exact .inl (hsub hx)
    · refine .inr ⟨List.mem_singleton.mp hx, hm.symm.imp_right ?_⟩
      intro ho
      simp only [overLimit, Bool.or_eq_false_iff, decide_eq_false_iff_not] at ho
      omega

theorem dropOldest_none {c : Client} (h : dropOldest c = none) :
    ∀ m ∈ droppablePart c, m.control = true := by
  intro m hm
  unfold dropOldest at h
  split at h
  · next hf => simpa using List.find?_eq_none.mp hf m hm
  · contradiction

theorem droppablePart_push {c : Client} {m x : Message} {b : ℕ}
    (h : x ∈ droppablePart { c with queue := c.queue ++ [m], queuedBytes := b }) :
    x ∈ droppablePart c ∨ x = m := by
  have hq : x ∈ if frontPinned c then (c.queue ++ [m]).drop 1 else c.queue ++ [m] := h
  cases hp : frontPinned c
  · simpa [droppablePart, hp] using hq
  · cases hc : c.queue with
    | nil => simp [hp, hc] at hq
    | cons a q => simpa [droppablePart, hp, hc] using hq

def overfull (cfg : Config) (c : Client) : Prop :=
  cfg.queueMaxBytes < c.queuedBytes ∨ cfg.queueMaxMsgs < c.queue.length

/-- Right after EnqueueLocked a queue over a limit holds, apart from its pinned
front, control messages only. -/
theorem enqueueLocked_overfull (cfg : Config) (c : Client) (m : Message)
    (h : overfull cfg (enqueueLocked cfg c m)) :
    ∀ x ∈ droppablePart (enqueueLocked cfg c m), x.control = true := by
  obtain ⟨r, htrim, hstop, hcase⟩ := enqueueLocked_cases cfg c m
  have hr : overLimit cfg r m = true → ∀ x ∈ droppablePart r, x.control = true := by
    intro ho
    rcases hstop with hq | ho' | hd
    · simp [droppablePart, hq]
    · simp [ho'] at ho
    · exact dropOldest_none hd
  rcases hcase with ⟨ho, hm, he⟩ | ⟨hm, he⟩ <;> rw [he] at h ⊢
  · exact hr ho
  · intro x hx
    cases ho : overLimit cfg r m
    · simp only [overLimit, Bool.or_eq_false_iff, decide_eq_false_iff_not] at ho
      simp only [overfull, List.length_append, List.length_singleton] at h
      omega
    · rcases droppablePart_push hx with hx | rfl
      · exact hr ho x hx
      · exact hm.resolve_left (by simp [ho])

end ZoneMinder.StreamSocket
