import ZoneMinder.Lib.Run
import Mathlib.Algebra.Order.Ring.Int
import Mathlib.Logic.Function.Basic

namespace ZoneMinder.EventZmsHints

open Lib

inductive SendState
  | unsent
  | sending
  | sent
  deriving DecidableEq

/-- The neighbours of event `src`. -/
structure Hints (V : Type) where
  src : V
  next : V
  prev : V
  fetched : ℤ
  state : SendState := .unsent
  batch : ℕ := 0
  inflight : ℤ := 0
  failed : Bool := false
  deriving DecidableEq

structure Command (V : Type) where
  dir : ℕ
  eventid : V
  srcid : V
  batch : ℕ
  deriving DecidableEq

structure Tracker (V : Type) where
  hints : Option (Hints V) := none
  batches : ℕ := 0
  /-- batch number and commands of it not yet answered, in the order of the map's insertions -/
  unanswered : List (ℕ × ℕ) := []
  deriving DecidableEq

/-- `Map.prototype.set` -/
def mapSet (m : List (ℕ × ℕ)) (key value : ℕ) : List (ℕ × ℕ) :=
  if (m.lookup key).isSome then m.map (fun e ↦ if e.1 = key then (key, value) else e)
  else m ++ [(key, value)]

/-- `Map.prototype.delete` -/
def mapDelete (m : List (ℕ × ℕ)) (key : ℕ) : List (ℕ × ℕ) := m.filter (fun e ↦ !(e.1 = key))

/-- One command less is waited for. -/
def answer (m : List (ℕ × ℕ)) (batch : ℕ) : List (ℕ × ℕ) :=
  match m.lookup batch with
  | none => m
  | some n => if 0 < n - 1 then mapSet m batch (n - 1) else mapDelete m batch

/-- A reply counts for the hints that its batch was taken for. -/
def Hints.response {V : Type} (h : Hints V) (batch : ℕ) (delivered : Bool) : Hints V :=
  if h.batch ≠ batch ∨ h.state ≠ .sending then h
  else
    let failed := h.failed || !delivered
    let inflight := h.inflight - 1
    if 0 < inflight then { h with failed, inflight }
    else { h with failed, inflight, state := if failed then .unsent else .sent }

namespace Tracker

-- Ids are compared by `==`.
variable {V : Type} [BEq V]

def knows (t : Tracker V) (src next prev : V) : Bool :=
  t.hints.any fun h ↦ h.src == src && h.next == next && h.prev == prev

def set (t : Tracker V) (src next prev : V) (now : ℤ) : Tracker V :=
  if t.knows src next prev then
    { t with hints := t.hints.map fun h ↦ { h with fetched := now } }
  else { t with hints := some { src, next, prev, fetched := now } }

def take (t : Tracker V) (current : V) : Tracker V × List (Command V) :=
  match t.hints with
  | none => (t, [])
  | some h =>
    if !(h.src == current) || h.state ≠ .unsent || t.unanswered.length ≠ 0 then (t, [])
    else
      let batch := t.batches + 1
      ({ batches := batch
         unanswered := mapSet t.unanswered batch 2
         hints := some { h with state := .sending, batch, inflight := 2, failed := false } },
        [⟨0, h.next, h.src, batch⟩, ⟨1, h.prev, h.src, batch⟩])

omit [BEq V] in
def response (t : Tracker V) (batch : ℕ) (delivered : Bool) : Tracker V :=
  { t with
    unanswered := answer t.unanswered batch
    hints := t.hints.map (·.response batch delivered) }

omit [BEq V] in
def reset (t : Tracker V) : Tracker V :=
  { t with
    unanswered := []
    hints := t.hints.map fun h ↦ { h with state := .unsent, batch := 0 } }

end Tracker

inductive Dir
  | next
  | prev
  deriving DecidableEq

/-- A command on its way: whether it reached the zms it was sent to, and the reply to it. -/
structure Issue (V : Type) where
  command : Command V
  reached : Bool := false
  reply : Option Bool := none
  deriving DecidableEq

structure Batch (V : Type) where
  number : ℕ
  /-- how many resets there were before it was taken -/
  epoch : ℕ
  /-- how many times the hints were replaced before it was taken -/
  generation : ℕ
  issue : Dir → Issue V

/-- The tracker, and the batches taken from it, the newest first. -/
structure World (V : Type) where
  tracker : Tracker V := {}
  sent : List (Batch V) := []
  epoch : ℕ := 0
  generation : ℕ := 0

inductive Op (V : Type)
  | set (src next prev : V) (now : ℤ)
  | take (current : V)
  | reach (batch : ℕ) (dir : Dir)
  | response (batch : ℕ) (dir : Dir) (delivered : Bool)
  | reset

namespace Batch

variable {V : Type}

def update (b : Batch V) (dir : Dir) (f : Issue V → Issue V) : Batch V :=
  { b with issue := Function.update b.issue dir (f (b.issue dir)) }

def waiting (b : Batch V) (dir : Dir) : ℕ := if (b.issue dir).reply = none then 1 else 0

/-- Commands not yet answered. -/
def left (b : Batch V) : ℕ := b.waiting .next + b.waiting .prev

def failed (b : Batch V) : Bool :=
  (b.issue .next).reply = some false || (b.issue .prev).reply = some false

def state (b : Batch V) : SendState :=
  if b.left ≠ 0 then .sending else if b.failed then .unsent else .sent

end Batch

def updateBatch {V : Type} (sent : List (Batch V)) (number : ℕ) (f : Batch V → Batch V) :
    List (Batch V) :=
  sent.map (fun b ↦ if b.number = number then f b else b)

/-- A command is answered at most once, and as delivered only where it reached its zms. -/
def step {V : Type} [BEq V] (w : World V) : Op V → Option (World V)
  | .set src next prev now =>
    some { w with
      tracker := w.tracker.set src next prev now
      generation := if w.tracker.knows src next prev then w.generation else w.generation + 1 }
  | .take current =>
    match w.tracker.take current with
    | (tracker, [c, c']) =>
      some { w with
        tracker
        sent := ⟨c.batch, w.epoch, w.generation,
          fun | .next => { command := c } | .prev => { command := c' }⟩ :: w.sent }
    | (tracker, _) => some { w with tracker }
  | .reach number dir =>
    some { w with
      sent := updateBatch w.sent number (·.update dir fun i ↦ { i with reached := true }) }
  | .response number dir delivered =>
    match w.sent.find? (fun b ↦ b.number = number) with
    | none => none
    | some b =>
      if (b.issue dir).reply = none ∧ (delivered → (b.issue dir).reached) then
        some { w with
          tracker := w.tracker.response number delivered
          sent := updateBatch w.sent number
            (·.update dir fun i ↦ { i with reply := some delivered }) }
      else none
  | .reset => some { w with tracker := w.tracker.reset, epoch := w.epoch + 1 }

section

variable {V : Type} {w w' : World V} {b : Batch V} {bs sent : List (Batch V)} {h : Hints V}

/-- The batches are numbered from 1. -/
def Numbered : List (Batch V) → Prop
  | [] => True
  | b :: bs => b.number = bs.length + 1 ∧ Numbered bs

/-- What the map of unanswered commands holds. -/
def waitedFor (epoch : ℕ) : List (Batch V) → List (ℕ × ℕ)
  | [] => []
  | b :: _ => if b.epoch = epoch ∧ b.left ≠ 0 then [(b.number, b.left)] else []

/-- The last batch has been taken for the hints, from the zms that runs now. -/
structure Carries (epoch generation : ℕ) (h : Hints V) (b : Batch V) : Prop where
  epoch : b.epoch = epoch
  generation : b.generation = generation
  batch : h.batch = b.number
  next : (b.issue .next).command = ⟨0, h.next, h.src, b.number⟩
  prev : (b.issue .prev).command = ⟨1, h.prev, h.src, b.number⟩
  inflight : h.inflight = b.left
  failed : h.failed = b.failed
  state : h.state = b.state

/-- None has. -/
structure Untaken (w : World V) (h : Hints V) : Prop where
  batch : h.batch = 0
  state : h.state = .unsent
  generation : ∀ b ∈ w.sent, b.epoch = w.epoch → b.generation ≠ w.generation

structure Sound (w : World V) : Prop where
  numbered : Numbered w.sent
  batches : w.tracker.batches = w.sent.length
  epoch : ∀ b ∈ w.sent, b.epoch ≤ w.epoch
  generation : ∀ b ∈ w.sent, b.generation ≤ w.generation
  answered : ∀ b ∈ w.sent.tail, b.epoch = w.epoch → b.left = 0
  unanswered : w.tracker.unanswered = waitedFor w.epoch w.sent
  reached : ∀ b ∈ w.sent, ∀ dir, (b.issue dir).reply = some true → (b.issue dir).reached = true
  unset : w.tracker.hints = none → w.sent = []
  hints : ∀ h, w.tracker.hints = some h → Untaken w h ∨ ∃ b ∈ w.sent.head?, Carries w.epoch w.generation h b

theorem Numbered.number_le (h : Numbered sent) (hb : b ∈ sent) :
    0 < b.number ∧ b.number ≤ sent.length := by
  induction sent with
  | nil => cases hb
  | cons b' bs ih =>
    rw [List.length_cons]
    rcases List.mem_cons.mp hb with rfl | hb
    · have hnumber := h.1
      omega
    · have hnumber := ih h.2 hb
      omega

theorem Numbered.eq_of_number {b' : Batch V} (h : Numbered sent) (hb : b ∈ sent)
    (hb' : b' ∈ sent) (heq : b.number = b'.number) : b = b' := by
  induction sent with
  | nil => cases hb
  | cons c bs ih =>
    have hlast := h.1
    rcases List.mem_cons.mp hb with rfl | hmem <;> rcases List.mem_cons.mp hb' with rfl | hmem'
    · rfl
    · have hle := (h.2.number_le hmem').2
      omega
    · have hle := (h.2.number_le hmem).2
      omega
    · exact ih h.2 hmem hmem'

theorem Numbered.update (h : Numbered sent) (number : ℕ) {f : Batch V → Batch V}
    (hf : ∀ b, (f b).number = b.number) : Numbered (updateBatch sent number f) := by
  induction sent with
  | nil => exact h
  | cons b bs ih =>
    refine ⟨?_, ih h.2⟩
    have hlength : (updateBatch bs number f).length = bs.length := List.length_map _
    have hnumber : (if b.number = number then f b else b).number = b.number := by
      split_ifs
      · exact hf b
      · rfl
    exact hnumber.trans (h.1.trans (congrArg (· + 1) hlength.symm))

namespace Batch

variable {dir : Dir} {delivered : Bool}

theorem left_eq_zero : b.left = 0 ↔ ∀ dir, (b.issue dir).reply ≠ none := by
  constructor
  · intro hleft dir hnone
    cases dir <;> simp [left, waiting, hnone] at hleft
  · intro hreply
    simp [left, waiting, hreply]

theorem left_pos (hnone : (b.issue dir).reply = none) : 0 < b.left := by
  refine Nat.pos_of_ne_zero fun hzero ↦ ?_
  exact left_eq_zero.mp hzero dir hnone

theorem failed_iff : b.failed = true ↔ ∃ dir, (b.issue dir).reply = some false := by
  constructor
  · intro hfailed
    rcases (Bool.or_eq_true _ _).mp hfailed with hnext | hprev
    · exact ⟨.next, by simpa using hnext⟩
    · exact ⟨.prev, by simpa using hprev⟩
  · rintro ⟨dir, hreply⟩
    cases dir <;> simp [failed, hreply]

/-- A reply leaves one command less to wait for. -/
theorem left_reply (hnone : (b.issue dir).reply = none) :
    (b.update dir fun i ↦ { i with reply := some delivered }).left = b.left - 1 := by
  cases dir <;> simp [left, waiting, update, hnone]

theorem failed_reply (hnone : (b.issue dir).reply = none) :
    (b.update dir fun i ↦ { i with reply := some delivered }).failed =
      (b.failed || !delivered) := by
  cases dir <;> cases delivered <;> simp [failed, update, hnone]

theorem command_update (f : Issue V → Issue V) (hf : ∀ i, (f i).command = i.command)
    (dir' : Dir) : ((b.update dir f).issue dir').command = (b.issue dir').command := by
  by_cases heq : dir' = dir
  · subst heq
    simp [update, hf]
  · simp [update, heq]

end Batch

/-- What an update of issues leaves alone. -/
theorem mem_updateBatch {number : ℕ} {dir : Dir} {f : Issue V → Issue V} {b' : Batch V}
    (hb' : b' ∈ updateBatch sent number (·.update dir f)) :
    ∃ b ∈ sent, b'.epoch = b.epoch ∧ b'.generation = b.generation ∧
      (b' = b ∨ b.number = number ∧ b' = b.update dir f) := by
  obtain ⟨b, hb, rfl⟩ := List.mem_map.mp hb'
  refine ⟨b, hb, ?_⟩
  split_ifs with hnumber
  · exact ⟨rfl, rfl, .inr ⟨hnumber, rfl⟩⟩
  · exact ⟨rfl, rfl, .inl rfl⟩

theorem epoch_updateBatch {number epoch : ℕ} {dir : Dir} {f : Issue V → Issue V}
    (h : ∀ b ∈ sent, b.epoch ≤ epoch) :
    ∀ b ∈ updateBatch sent number (·.update dir f), b.epoch ≤ epoch := by
  intro b' hb'
  obtain ⟨b, hb, hepoch, -⟩ := mem_updateBatch hb'
  exact hepoch ▸ h b hb

theorem generation_updateBatch {number generation : ℕ} {dir : Dir} {f : Issue V → Issue V}
    (h : ∀ b ∈ sent, b.generation ≤ generation) :
    ∀ b ∈ updateBatch sent number (·.update dir f), b.generation ≤ generation := by
  intro b' hb'
  obtain ⟨b, hb, -, hgeneration, -⟩ := mem_updateBatch hb'
  exact hgeneration ▸ h b hb

theorem answer_of_lookup {m : List (ℕ × ℕ)} {batch : ℕ} (h : m.lookup batch = none) :
    answer m batch = m := by
  simp [answer, h]

theorem answer_singleton (batch n : ℕ) :
    answer [(batch, n)] batch = if 0 < n - 1 then [(batch, n - 1)] else [] := by
  simp [answer, mapSet, mapDelete]

theorem waitedFor_lookup {number epoch : ℕ} (hne : b.number ≠ number) :
    (waitedFor epoch (b :: bs)).lookup number = none := by
  by_cases hwaits : b.epoch = epoch ∧ b.left ≠ 0
  · simp [waitedFor, hwaits, Ne.symm hne]
  · simp [waitedFor, hwaits]

theorem Hints.response_of_ne {number : ℕ} (hne : h.batch ≠ number) (delivered : Bool) :
    h.response number delivered = h := if_pos (.inl hne)

/-- The reply counts for the hints as it counts for their batch. -/
theorem Carries.response {epoch generation : ℕ} {dir : Dir} (hc : Carries epoch generation h b)
    (hnone : (b.issue dir).reply = none) (delivered : Bool) :
    Carries epoch generation (h.response b.number delivered)
      (b.update dir fun i ↦ { i with reply := some delivered }) := by
  have hleft := Batch.left_pos hnone
  have hstate : h.state = .sending := by
    rw [hc.state, Batch.state, if_pos hleft.ne']
  have hcommand (d : Dir) : ((b.update dir fun i ↦ { i with reply := some delivered }).issue
      d).command = (b.issue d).command :=
    Batch.command_update (fun i ↦ { i with reply := some delivered }) (fun i ↦ rfl) d
  have hnext := (hcommand .next).trans hc.next
  have hprev := (hcommand .prev).trans hc.prev
  have hcast : ((b.left - 1 : ℕ) : ℤ) = h.inflight - 1 := by
    rw [hc.inflight]
    omega
  have hcond : ¬(h.batch ≠ b.number ∨ h.state ≠ .sending) := by
    simp [hc.batch, hstate]
  rw [Hints.response, if_neg hcond]
  by_cases hlast : 0 < h.inflight - 1
  · rw [if_pos hlast]
    refine ⟨hc.epoch, hc.generation, hc.batch, hnext, hprev, ?_, ?_, ?_⟩
    · rw [Batch.left_reply hnone, hcast]
    · rw [Batch.failed_reply hnone, hc.failed]
    · rw [Batch.state, Batch.left_reply hnone, if_pos (by omega)]
      exact hstate
  · rw [if_neg hlast]
    refine ⟨hc.epoch, hc.generation, hc.batch, hnext, hprev, ?_, ?_, ?_⟩
    · rw [Batch.left_reply hnone, hcast]
    · rw [Batch.failed_reply hnone, hc.failed]
    · have hzero : ¬b.left - 1 ≠ 0 := by omega
      rw [Batch.state, Batch.left_reply hnone, if_neg hzero, Batch.failed_reply hnone, hc.failed]

section Steps

theorem set_sound [BEq V] (hw : Sound w) (src next prev : V) (now : ℤ) :
    Sound { w with
      tracker := w.tracker.set src next prev now
      generation := if w.tracker.knows src next prev then w.generation else w.generation + 1 } := by
  cases hknows : w.tracker.knows src next prev with
  | true =>
    simp only [Tracker.set, hknows, if_true]
    refine ⟨hw.numbered, hw.batches, hw.epoch, hw.generation, hw.answered, hw.unanswered,
      hw.reached, fun hnone ↦ hw.unset (Option.map_eq_none_iff.mp hnone), ?_⟩
    intro h' hh'
    obtain ⟨h, hh, rfl⟩ := Option.map_eq_some_iff.mp hh'
    rcases hw.hints h hh with hnone | ⟨b, hb, hc⟩
    · exact .inl ⟨hnone.batch, hnone.state, hnone.generation⟩
    · exact .inr ⟨b, hb, hc.epoch, hc.generation, hc.batch, hc.next, hc.prev, hc.inflight,
        hc.failed, hc.state⟩
  | false =>
    simp only [Tracker.set, hknows, Bool.false_eq_true, if_false]
    refine ⟨hw.numbered, hw.batches, hw.epoch, ?_, hw.answered, hw.unanswered, hw.reached, ?_,
      ?_⟩
    · exact fun b hb ↦ Nat.le_succ_of_le (hw.generation b hb)
    · intro hnone
      cases hnone
    · intro h hh
      obtain rfl := Option.some.inj hh
      refine .inl ⟨rfl, rfl, ?_⟩
      intro b hb _ heq
      exact absurd (hw.generation b hb) (by rw [heq]; exact Nat.not_succ_le_self _)

theorem reset_sound (hw : Sound w) :
    Sound { w with tracker := w.tracker.reset, epoch := w.epoch + 1 } := by
  have hlt : ∀ b ∈ w.sent, b.epoch ≠ w.epoch + 1 := by
    intro b hb heq
    have hle := hw.epoch b hb
    omega
  refine ⟨hw.numbered, hw.batches, fun b hb ↦ Nat.le_succ_of_le (hw.epoch b hb), hw.generation,
    ?_, ?_, hw.reached, fun hnone ↦ hw.unset (Option.map_eq_none_iff.mp hnone), ?_⟩
  · exact fun b hb hepoch ↦ absurd hepoch (hlt b (List.mem_of_mem_tail hb))
  · cases hsent : w.sent with
    | nil => rfl
    | cons b bs =>
      have hb := hlt b (by simp [hsent])
      simp [Tracker.reset, waitedFor, hb]
  · intro h' hh'
    obtain ⟨h, -, rfl⟩ := Option.map_eq_some_iff.mp hh'
    exact .inl ⟨rfl, rfl, fun b hb hepoch ↦ absurd hepoch (hlt b hb)⟩

theorem reach_sound (hw : Sound w) (number : ℕ) (dir : Dir) :
    Sound { w with
      sent := updateBatch w.sent number (·.update dir fun i ↦ { i with reached := true }) } := by
  have hreply (b : Batch V) (dir' : Dir) :
      ((b.update dir fun i ↦ { i with reached := true }).issue dir').reply =
        (b.issue dir').reply := by
    by_cases heq : dir' = dir
    · subst heq
      simp [Batch.update]
    · simp [Batch.update, heq]
  have hleft (b : Batch V) :
      (b.update dir fun i ↦ { i with reached := true }).left = b.left := by
    simp only [Batch.left, Batch.waiting, hreply]
  have hfailed (b : Batch V) :
      (b.update dir fun i ↦ { i with reached := true }).failed = b.failed := by
    simp only [Batch.failed, hreply]
  refine ⟨hw.numbered.update number fun b ↦ rfl,
    hw.batches.trans (List.length_map _).symm, ?_, ?_, ?_, ?_, ?_,
    fun hnone ↦ List.map_eq_nil_iff.mpr (hw.unset hnone), ?_⟩
  · exact epoch_updateBatch hw.epoch
  · exact generation_updateBatch hw.generation
  · intro b' hb' hepoch'
    rw [updateBatch, ← List.map_tail] at hb'
    obtain ⟨b, hb, hepoch, -, rfl | ⟨-, rfl⟩⟩ := mem_updateBatch hb'
    · exact hw.answered _ hb hepoch'
    · rw [hleft]
      exact hw.answered b hb hepoch'
  · rw [hw.unanswered]
    cases w.sent with
    | nil => rfl
    | cons b bs =>
      simp only [updateBatch, List.map_cons]
      by_cases hnumber : b.number = number
      · rw [if_pos hnumber, waitedFor, waitedFor, hleft]
        rfl
      · rw [if_neg hnumber, waitedFor, waitedFor]
  · intro b' hb' dir' hdir'
    obtain ⟨b, hb, -, -, rfl | ⟨-, rfl⟩⟩ := mem_updateBatch hb'
    · exact hw.reached _ hb dir' hdir'
    · rw [hreply] at hdir'
      by_cases heq : dir' = dir
      · subst heq
        simp [Batch.update]
      · simpa [Batch.update, heq] using hw.reached b hb dir' hdir'
  · intro h hh
    rcases hw.hints h hh with hnone | ⟨b, hb, hc⟩
    · refine .inl ⟨hnone.batch, hnone.state, ?_⟩
      intro b' hb' hepoch'
      obtain ⟨b, hb, hepoch, hgeneration, -⟩ := mem_updateBatch hb'
      rw [hgeneration]
      exact hnone.generation b hb (hepoch ▸ hepoch')
    · obtain ⟨bs, hsent⟩ := List.head?_eq_some_iff.mp hb
      refine .inr ⟨if b.number = number then b.update dir _ else b, by rw [hsent]; rfl, ?_⟩
      split_ifs with hnumber
      · refine ⟨hc.epoch, hc.generation, hc.batch, ?_, ?_, ?_, ?_, ?_⟩
        · exact (Batch.command_update (fun i ↦ { i with reached := true }) (fun i ↦ rfl)
            .next).trans hc.next
        · exact (Batch.command_update (fun i ↦ { i with reached := true }) (fun i ↦ rfl)
            .prev).trans hc.prev
        · rw [hleft]
          exact hc.inflight
        · rw [hfailed]
          exact hc.failed
        · simp only [Batch.state, hleft, hfailed]
          exact hc.state
      · exact hc

/-- A batch is taken where nothing is waited for, or none is. -/
theorem take_cases [BEq V] (t : Tracker V) (current : V) :
    t.take current = (t, []) ∨
      ∃ h, t.hints = some h ∧ (h.src == current) = true ∧ h.state = .unsent ∧
        t.unanswered = [] ∧
        t.take current =
          ({ batches := t.batches + 1
             unanswered := [(t.batches + 1, 2)]
             hints := some
              { h with state := .sending, batch := t.batches + 1, inflight := 2, failed := false } },
            [⟨0, h.next, h.src, t.batches + 1⟩, ⟨1, h.prev, h.src, t.batches + 1⟩]) := by
  cases hh : t.hints with
  | none => exact .inl (by simp [Tracker.take, hh])
  | some h =>
    by_cases hcond : !(h.src == current) || h.state ≠ .unsent || t.unanswered.length ≠ 0
    · exact .inl (by simp only [Tracker.take, hh, if_pos hcond])
    · have htake : (h.src == current) = true ∧ h.state = .unsent ∧ t.unanswered = [] := by
        simpa [and_assoc] using hcond
      obtain ⟨hsrc, hstate, hnil⟩ := htake
      refine .inr ⟨h, rfl, hsrc, hstate, hnil, ?_⟩
      simp [Tracker.take, hh, hsrc, hstate, hnil, mapSet]

theorem take_sound [BEq V] (hw : Sound w) {current : V}
    (hstep : step w (.take current) = some w') : Sound w' := by
  rcases take_cases w.tracker current with htake | ⟨h, -, -, -, hnil, htake⟩
  · simp only [step, htake, Option.some.injEq] at hstep
    subst hstep
    exact ⟨hw.numbered, hw.batches, hw.epoch, hw.generation, hw.answered, hw.unanswered,
      hw.reached, hw.unset, hw.hints⟩
  · simp only [step, htake, Option.some.injEq] at hstep
    subst hstep
    refine ⟨⟨congrArg (· + 1) hw.batches, hw.numbered⟩, congrArg (· + 1) hw.batches, ?_, ?_, ?_,
      ?_, ?_, ?_, ?_⟩
    · intro b hb
      rcases List.mem_cons.mp hb with rfl | hb
      · exact le_rfl
      · exact hw.epoch b hb
    · intro b hb
      rcases List.mem_cons.mp hb with rfl | hb
      · exact le_rfl
      · exact hw.generation b hb
    · intro b hb hepoch
      -- the last batch too, as the map is empty
      simp only [List.tail_cons] at hb
      have hunanswered := hw.unanswered
      have hanswered := hw.answered
      cases hsent : w.sent with
      | nil => simp [hsent] at hb
      | cons b' bs =>
        rw [hsent] at hb hunanswered hanswered
        rcases List.mem_cons.mp hb with rfl | hb
        · by_contra hleft
          simp [hnil, waitedFor, hleft, hepoch] at hunanswered
        · exact hanswered b hb hepoch
    · simp [waitedFor, Batch.left, Batch.waiting]
    · intro b hb dir hreply
      rcases List.mem_cons.mp hb with rfl | hb
      · cases dir <;> cases hreply
      · exact hw.reached b hb dir hreply
    · intro hnone
      cases hnone
    · intro h' hh'
      obtain rfl := Option.some.inj hh'
      exact .inr ⟨_, rfl, rfl, rfl, rfl, rfl, rfl, rfl, rfl, rfl⟩

theorem response_sound (hw : Sound w) {number : ℕ} {dir : Dir} {delivered : Bool}
    (hfind : w.sent.find? (fun b ↦ b.number = number) = some b)
    (hnone : (b.issue dir).reply = none)
    (hreached : delivered → (b.issue dir).reached) :
    Sound { w with
      tracker := w.tracker.response number delivered
      sent := updateBatch w.sent number
        (·.update dir fun i ↦ { i with reply := some delivered }) } := by
  have hb : b ∈ w.sent := List.mem_of_find?_eq_some hfind
  have hnumber : b.number = number := by simpa using List.find?_some hfind
  have hpos := (hw.numbered.number_le hb).1
  have heq (c : Batch V) (hc : c ∈ w.sent) (hcnumber : c.number = number) : c = b :=
    hw.numbered.eq_of_number hc hb (hcnumber.trans hnumber.symm)
  refine ⟨hw.numbered.update number fun b ↦ rfl,
    hw.batches.trans (List.length_map _).symm, ?_, ?_, ?_, ?_, ?_,
    fun hunset ↦ List.map_eq_nil_iff.mpr (hw.unset (Option.map_eq_none_iff.mp hunset)), ?_⟩
  · exact epoch_updateBatch hw.epoch
  · exact generation_updateBatch hw.generation
  · intro c' hc' hepoch
    rw [updateBatch, ← List.map_tail] at hc'
    obtain ⟨c, hc, -, -, rfl | ⟨hcnumber, rfl⟩⟩ := mem_updateBatch hc'
    · exact hw.answered _ hc hepoch
    · obtain rfl := heq c (List.mem_of_mem_tail hc) hcnumber
      have hzero := hw.answered c hc hepoch
      have hleft := Batch.left_pos hnone
      omega
  · change answer w.tracker.unanswered number = _
    rw [hw.unanswered]
    cases hsent : w.sent with
    | nil => simp [hsent] at hb
    | cons c bs =>
      simp only [updateBatch, List.map_cons]
      by_cases hcnumber : c.number = number
      · obtain rfl := heq c (by simp [hsent]) hcnumber
        have hleft := Batch.left_pos hnone
        rw [if_pos hcnumber, waitedFor, waitedFor, Batch.left_reply hnone]
        by_cases hepoch : c.epoch = w.epoch
        · rw [if_pos ⟨hepoch, by omega⟩, ← hnumber, answer_singleton]
          by_cases hlast : 0 < c.left - 1
          · rw [if_pos hlast, if_pos ⟨hepoch, by omega⟩]
            rfl
          · rw [if_neg hlast, if_neg fun h ↦ hlast (Nat.pos_of_ne_zero h.2)]
        · rw [if_neg fun h ↦ hepoch h.1, if_neg fun h ↦ hepoch h.1]
          rfl
      · rw [if_neg hcnumber, answer_of_lookup (waitedFor_lookup hcnumber)]
        rfl
  · intro c' hc' dir' hreply
    obtain ⟨c, hc, -, -, rfl | ⟨hcnumber, rfl⟩⟩ := mem_updateBatch hc'
    · exact hw.reached _ hc dir' hreply
    · obtain rfl := heq c hc hcnumber
      by_cases hdir : dir' = dir
      · subst hdir
        simp only [Batch.update, Function.update_self, Option.some.injEq] at hreply ⊢
        exact hreached hreply
      · simp only [Batch.update, ne_eq, hdir, not_false_eq_true, Function.update_of_ne] at hreply ⊢
        exact hw.reached c hc dir' hreply
  · intro h' hh'
    obtain ⟨h, hh, rfl⟩ := Option.map_eq_some_iff.mp hh'
    rcases hw.hints h hh with huntaken | ⟨c, hc, hcarries⟩
    · have hne : h.batch ≠ number := by
        rw [huntaken.batch, ← hnumber]
        exact hpos.ne
      rw [Hints.response_of_ne hne]
      refine .inl ⟨huntaken.batch, huntaken.state, ?_⟩
      intro c' hc' hepoch'
      obtain ⟨c, hc, hepoch, hgeneration, -⟩ := mem_updateBatch hc'
      rw [hgeneration]
      exact huntaken.generation c hc (hepoch ▸ hepoch')
    · obtain ⟨bs, hsent⟩ := List.head?_eq_some_iff.mp hc
      by_cases hcnumber : c.number = number
      · obtain rfl := heq c (by simp [hsent]) hcnumber
        refine .inr ⟨c.update dir _, by rw [hsent]; exact congrArg some (if_pos hcnumber), ?_⟩
        rw [← hcnumber]
        exact hcarries.response hnone delivered
      · rw [Hints.response_of_ne fun heq' ↦ hcnumber (hcarries.batch.symm.trans heq')]
        exact .inr ⟨c, by rw [hsent]; exact congrArg some (if_neg hcnumber), hcarries⟩

theorem step_sound [BEq V] (hw : Sound w) {op : Op V} (hstep : step w op = some w') :
    Sound w' := by
  cases op with
  | set src next prev now =>
    obtain rfl := Option.some.inj hstep
    exact set_sound hw src next prev now
  | take current => exact take_sound hw hstep
  | reach number dir =>
    obtain rfl := Option.some.inj hstep
    exact reach_sound hw number dir
  | response number dir delivered =>
    cases hfind : w.sent.find? (fun b ↦ b.number = number) with
    | none => simp [step, hfind] at hstep
    | some b =>
      simp only [step, hfind] at hstep
      obtain ⟨⟨hnone, hreached⟩, hstep⟩ := Option.ite_none_right_eq_some.mp hstep
      obtain rfl := Option.some.inj hstep
      exact response_sound hw hfind hnone hreached
  | reset =>
    obtain rfl := Option.some.inj hstep
    exact reset_sound hw

theorem init_sound : Sound ({} : World V) := by
  refine ⟨trivial, rfl, ?_, ?_, ?_, rfl, ?_, fun _ ↦ rfl, ?_⟩ <;> intro b hb <;> cases hb

theorem reachable_sound [BEq V] (hw : Reachable step ({} : World V) w) : Sound w := by
  obtain ⟨ops, hrun⟩ := hw
  exact hrun.invariant (fun _ _ _ h _ hstep ↦ step_sound h hstep) init_sound

end Steps

namespace Sound

theorem number_le_head (hw : Sound w) (hb : b ∈ w.sent.head?) :
    ∀ b' ∈ w.sent, b'.number ≤ b.number := by
  intro b' hb'
  obtain ⟨bs, hsent⟩ := List.head?_eq_some_iff.mp hb
  have hnumbered := hw.numbered
  have hle := (hnumbered.number_le hb').2
  rw [hsent] at hnumbered hle
  exact hle.trans hnumbered.1.ge

/-- Only the last batch can have a command that is waited for. -/
theorem take_nil [BEq V] (hw : Sound w) (hb : b ∈ w.sent) (hepoch : b.epoch = w.epoch)
    {dir : Dir} (hnone : (b.issue dir).reply = none) (current : V) :
    (w.tracker.take current).2 = [] := by
  rcases take_cases w.tracker current with htake | ⟨h, -, -, -, hnil, -⟩
  · rw [htake]
  · exfalso
    have hleft := Batch.left_pos hnone
    have hunanswered := hw.unanswered
    have hanswered := hw.answered
    rw [hnil] at hunanswered
    cases hsent : w.sent with
    | nil => simp [hsent] at hb
    | cons b' bs =>
      rw [hsent] at hb hunanswered hanswered
      rcases List.mem_cons.mp hb with rfl | hb
      · rw [waitedFor, if_pos ⟨hepoch, hleft.ne'⟩] at hunanswered
        cases hunanswered
      · have hzero := hanswered b hb hepoch
        omega

theorem sent_delivered (hw : Sound w) (hh : w.tracker.hints = some h) (hstate : h.state = .sent) :
    ∃ b ∈ w.sent, b.epoch = w.epoch ∧ (b.issue .next).command = ⟨0, h.next, h.src, b.number⟩ ∧
      (b.issue .prev).command = ⟨1, h.prev, h.src, b.number⟩ ∧
      (∀ dir, (b.issue dir).reply = some true ∧ (b.issue dir).reached = true) ∧
      ∀ b' ∈ w.sent, b'.number ≤ b.number := by
  rcases hw.hints h hh with huntaken | ⟨b, hb, hc⟩
  · rw [huntaken.state] at hstate
    cases hstate
  · have hmem : b ∈ w.sent := List.mem_of_mem_head? hb
    have hsettled := hc.state
    rw [hstate, Batch.state] at hsettled
    split_ifs at hsettled with hleft hfailed
    refine ⟨b, hmem, hc.epoch, hc.next, hc.prev, ?_, hw.number_le_head hb⟩
    intro dir
    have hreply : (b.issue dir).reply = some true := by
      cases hreply : (b.issue dir).reply with
      | none => exact absurd hreply (Batch.left_eq_zero.mp (not_not.mp hleft) dir)
      | some delivered =>
        cases delivered with
        | false => exact absurd (Batch.failed_iff.mpr ⟨dir, hreply⟩) hfailed
        | true => rfl
    exact ⟨hreply, hw.reached b hmem dir hreply⟩

theorem offered_again [BEq V] (hw : Sound w) (hb : b ∈ w.sent) (hepoch : b.epoch = w.epoch)
    (hgeneration : b.generation = w.generation) (hreply : ∀ dir, (b.issue dir).reply ≠ none)
    {dir : Dir} (hfailed : (b.issue dir).reply = some false)
    (hlast : ∀ b' ∈ w.sent, b'.number ≤ b.number) {current : V}
    (hsrc : ((b.issue .next).command.srcid == current) = true) :
    (w.tracker.take current).2 =
      [{ (b.issue .next).command with batch := w.tracker.batches + 1 },
        { (b.issue .prev).command with batch := w.tracker.batches + 1 }] := by
  obtain ⟨h, hh⟩ : ∃ h, w.tracker.hints = some h := by
    refine Option.ne_none_iff_exists'.mp fun hnone ↦ ?_
    rw [hw.unset hnone] at hb
    cases hb
  rcases hw.hints h hh with huntaken | ⟨c, hc, hcarries⟩
  · exact absurd hgeneration (huntaken.generation b hb hepoch)
  · obtain rfl : c = b := by
      have hmem := List.mem_of_mem_head? hc
      exact hw.numbered.eq_of_number hmem hb
        ((hlast c hmem).antisymm (hw.number_le_head hc b hb))
    have hleft : c.left = 0 := Batch.left_eq_zero.mpr hreply
    have hstate : h.state = .unsent := by
      rw [hcarries.state, Batch.state, if_neg (not_not.mpr hleft),
        if_pos (Batch.failed_iff.mpr ⟨dir, hfailed⟩)]
    have hnil : w.tracker.unanswered = [] := by
      obtain ⟨bs, hsent⟩ := List.head?_eq_some_iff.mp hc
      rw [hw.unanswered, hsent, waitedFor, if_neg fun hwaits ↦ hwaits.2 hleft]
    rw [hcarries.next] at hsrc ⊢
    rw [hcarries.prev]
    simp [Tracker.take, hh, hstate, hnil, hsrc]

theorem response_hints [BEq V] (hw : Sound w) (hb : b ∈ w.sent)
    (hold : b.epoch ≠ w.epoch ∨ b.generation ≠ w.generation) {dir : Dir} {delivered : Bool}
    (hstep : step w (.response b.number dir delivered) = some w') :
    w'.tracker.hints = w.tracker.hints := by
  have hsame : w'.tracker.hints = w.tracker.hints.map (·.response b.number delivered) := by
    cases hfind : w.sent.find? (fun c ↦ c.number = b.number) with
    | none => simp [step, hfind] at hstep
    | some c =>
      simp only [step, hfind] at hstep
      obtain ⟨-, hstep⟩ := Option.ite_none_right_eq_some.mp hstep
      obtain rfl := Option.some.inj hstep
      rfl
  rw [hsame]
  cases hh : w.tracker.hints with
  | none => rfl
  | some h =>
    refine congrArg some (Hints.response_of_ne ?_ delivered)
    rcases hw.hints h hh with huntaken | ⟨c, hc, hcarries⟩
    · rw [huntaken.batch]
      exact (hw.numbered.number_le hb).1.ne
    · intro heq
      obtain rfl := hw.numbered.eq_of_number (List.mem_of_mem_head? hc) hb
        (hcarries.batch.symm.trans heq)
      rcases hold with hne | hne
      · exact hne hcarries.epoch
      · exact hne hcarries.generation

end Sound

theorem hints_in_order [BEq V] (hw : Reachable step ({} : World V) w) :
    (∀ b ∈ w.sent, b.epoch = w.epoch → (∃ dir, (b.issue dir).reply = none) →
      ∀ current, (w.tracker.take current).2 = []) ∧
    (∀ h, w.tracker.hints = some h → h.state = .sent →
      ∃ b ∈ w.sent, b.epoch = w.epoch ∧ (b.issue .next).command = ⟨0, h.next, h.src, b.number⟩ ∧
        (b.issue .prev).command = ⟨1, h.prev, h.src, b.number⟩ ∧
        (∀ dir, (b.issue dir).reply = some true ∧ (b.issue dir).reached = true) ∧
        ∀ b' ∈ w.sent, b'.number ≤ b.number) ∧
    (∀ b ∈ w.sent, b.epoch = w.epoch → b.generation = w.generation →
      (∀ dir, (b.issue dir).reply ≠ none) → (∃ dir, (b.issue dir).reply = some false) →
      (∀ b' ∈ w.sent, b'.number ≤ b.number) →
      ∀ current, ((b.issue .next).command.srcid == current) = true →
        (w.tracker.take current).2 =
          [{ (b.issue .next).command with batch := w.tracker.batches + 1 },
            { (b.issue .prev).command with batch := w.tracker.batches + 1 }]) ∧
    ∀ b ∈ w.sent, b.epoch ≠ w.epoch ∨ b.generation ≠ w.generation →
      ∀ dir delivered w', step w (.response b.number dir delivered) = some w' →
        w'.tracker.hints = w.tracker.hints := by
  have h := reachable_sound hw
  refine ⟨?_, ?_, ?_, ?_⟩
  · rintro b hb hepoch ⟨dir, hnone⟩ current
    exact h.take_nil hb hepoch hnone current
  · intro hints hh hstate
    exact h.sent_delivered hh hstate
  · rintro b hb hepoch hgeneration hreply ⟨dir, hfailed⟩ hlast current hsrc
    exact h.offered_again hb hepoch hgeneration hreply hfailed hlast hsrc
  · intro b hb hold dir delivered w' hstep
    exact h.response_hints hb hold hstep

end

theorem hints_in_order_refresh : ∃ w : World ℕ,
    (w.tracker.take 10).2 = [⟨0, 14, 10, 3⟩, ⟨1, 9, 10, 3⟩] := by
  obtain ⟨w, hrun, hw⟩ := Run.exists_of_any step (fun _ _ ↦ True) ({} : World ℕ)
    [.set 10 0 9 0, .take 10, .set 10 14 9 6000, .reach 1 .next, .response 1 .next true,
      .response 1 .prev false, .take 10, .reach 2 .next, .response 2 .prev false,
      .response 2 .next true]
    (fun w ↦ w.sent.any (fun b ↦ b.epoch = w.epoch ∧ b.generation = w.generation ∧
      (b.issue .next).reply = some true ∧ (b.issue .prev).reply = some false ∧
      (∀ b' ∈ w.sent, b'.number ≤ b.number) ∧ (b.issue .next).command = ⟨0, 14, 10, 2⟩ ∧
      (b.issue .prev).command = ⟨1, 9, 10, 2⟩ ∧ w.tracker.batches = 2)) (by decide)
  obtain ⟨b, hb, hb'⟩ := List.any_eq_true.mp hw
  simp only [decide_eq_true_eq] at hb'
  obtain ⟨hepoch, hgeneration, hnext, hprev, hlast, hcommand, hcommand', hbatches⟩ := hb'
  refine ⟨w, ?_⟩
  rw [(hints_in_order ⟨_, hrun⟩).2.2.1 b hb hepoch hgeneration
    (by rintro (_ | _) <;> simp [hnext, hprev]) ⟨.prev, hprev⟩ hlast 10 (by simp [hcommand]),
    hcommand, hcommand', hbatches]

/-- The hints of a batch are replaced by those of the next event before its replies are in. -/
theorem replaced_not_offered : ¬∀ w : World ℕ, Reachable step {} w → ∀ b ∈ w.sent,
    (∀ dir, (b.issue dir).reply ≠ none) → (∃ dir, (b.issue dir).reply = some false) →
    (∀ b' ∈ w.sent, b'.number ≤ b.number) →
      (w.tracker.take (b.issue .next).command.srcid).2 =
        [{ (b.issue .next).command with batch := w.tracker.batches + 1 },
          { (b.issue .prev).command with batch := w.tracker.batches + 1 }] := by
  intro h
  obtain ⟨w, hrun, hw⟩ := Run.exists_of_any step (fun _ _ ↦ True) ({} : World ℕ)
    [.set 10 11 9 0, .take 10, .set 11 12 10 0, .response 1 .next false, .response 1 .prev false]
    (fun w ↦ w.sent.any (fun b ↦ (b.issue .next).reply = some false ∧
      (b.issue .prev).reply = some false ∧ (∀ b' ∈ w.sent, b'.number ≤ b.number) ∧
      (w.tracker.take (b.issue .next).command.srcid).2 = [])) (by decide)
  obtain ⟨b, hb, hb'⟩ := List.any_eq_true.mp hw
  simp only [decide_eq_true_eq] at hb'
  obtain ⟨hnext, hprev, hlast, htake⟩ := hb'
  have hoffered := h w ⟨_, hrun⟩ b hb (by rintro (_ | _) <;> simp [hnext, hprev])
    ⟨.prev, hprev⟩ hlast
  rw [htake] at hoffered
  cases hoffered

end ZoneMinder.EventZmsHints
