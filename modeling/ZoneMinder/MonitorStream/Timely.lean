import ZoneMinder.MonitorStream.Pass
import Mathlib.Tactic.MkIffOfInductiveProp

namespace ZoneMinder.MonitorStream

open Lib

section Definitions

variable (n : ℤ)

/-- The read position is on a slot that was stored, or there is nothing to be read. -/
def Stream.onStored (s : Stream) : Prop :=
  s.valid (slot n s.tempReadIndex) = true ∨ s.tempReadIndex = s.tempWriteIndex

def Access.Safe : Access → Prop
  | .look index => 0 ≤ index ∧ index < n
  | .send index stored => (0 ≤ index ∧ index < n) ∧ stored = true
  | .store index overrun => (0 ≤ index ∧ index < n) ∧ overrun = false

/-- The points between the delayed half of a pass and the test of `paused` before the store. -/
def Pc.beforeStore : Pc → Bool
  | .image | .livePaused | .liveDelayed | .storePaused => true
  | .resume .rate .image => true
  | _ => false

/-- Where a pass has seen that it is not paused, or is about to settle the read position. -/
def Pc.settles : Pc → Bool
  | .play | .turn _ | .stepLook | .stepBack | .liveSend => true
  | _ => false

def Pc.inStep : Pc → Bool
  | .stepLook | .stepBack => true
  | _ => false

/-- When a command does no harm. -/
@[mk_iff]
structure Command.Timely (c : Command) (s : Stream) : Prop where
  /-- A pause does not end while the read position has its initial value. -/
  initial : c.plays = true → s.paused = true → s.tempReadIndex = n →
    s.tempReadIndex = s.tempWriteIndex
  /-- A pause does not end after the delayed half of a pass while the positions are equal. -/
  equal : c.plays = true → s.paused = true → s.pc ≠ .liveSend ∧
    (s.pc.beforeStore = true → s.tempReadIndex ≠ s.tempWriteIndex)
  /-- `delayed` is not set between the test of `paused` and the store into the slot that is read. -/
  storing : c.pauses = true ∨ c.plays = true ∧ s.paused = true → s.pc = .store →
    slot n s.tempReadIndex ≠ slot n s.tempWriteIndex
  /-- A pause does not begin while the read position is on a slot that was never stored. -/
  pausing : c.pauses = true → s.pc.settles = false → s.onStored n
  /-- A single step that is to be undone is not turned round. -/
  stepping : s.pc.inStep = true → (s.valid s.tempReadIndex = true →
    s.tempReadIndex = s.tempWriteIndex) → (0 < c.step s.step ↔ 0 < s.step)

/-- When the loop does no harm: where it turns round, the rate is still one of playing backwards,
and where it leaves the stored slots, there is no pause. -/
@[mk_iff]
structure PassTimely (s : Stream) : Prop where
  turning : s.pc = .turn .read → s.replayRate < 0
  moving : s.pc = .move → s.paused = true →
    ({ s with
      tempReadIndex := modAdd s.tempReadIndex (if 0 < s.replayRate then 1 else -1) n } :
      Stream).onStored n

def Timely (s : Stream) : Op → Prop
  | .command c => c.Timely n s
  | .pass _ => PassTimely n s

instance (s : Stream) : Decidable (s.onStored n) := inferInstanceAs (Decidable (_ ∨ _))

instance (c : Command) (s : Stream) : Decidable (c.Timely n s) :=
  decidable_of_iff _ (Command.timely_iff n c s).symm

instance (s : Stream) : Decidable (PassTimely n s) :=
  decidable_of_iff _ (passTimely_iff n s).symm

instance (s : Stream) : (op : Op) → Decidable (Timely n s op)
  | .command c => inferInstanceAs (Decidable (c.Timely n s))
  | .pass _ => inferInstanceAs (Decidable (PassTimely n s))

/-- Off the stored slots, the read position is on the last slot of the ring, and there is no
pause. -/
def Stream.Anchored (s : Stream) : Prop :=
  ¬s.onStored n → s.tempReadIndex = n - 1 ∧ s.paused = false

/-- Where a single step that is undone leads to. -/
def Stream.back (s : Stream) : ℤ := modAdd s.tempReadIndex (if 0 < s.step then -1 else 1) n

/-- What holds at each point of a pass. -/
def Stream.At (s : Stream) : Pc → Prop
  | .top | .delayed | .overrun | .stepDone | .rewound | .storeCheck => s.Anchored n
  | .paused => s.tempReadIndex ≠ s.tempWriteIndex ∧ s.Anchored n
  | .play => s.tempReadIndex ≠ s.tempWriteIndex ∧ (¬s.onStored n → s.tempReadIndex = n - 1)
  | .turn _ => ¬s.onStored n ∧ s.tempReadIndex = n - 1
  | .move | .stepping | .stepMove | .keepalive =>
    s.tempReadIndex ≠ s.tempWriteIndex ∧ s.valid (slot n s.tempReadIndex) = true
  | .stepLook => (0 ≤ s.tempReadIndex ∧ s.tempReadIndex < n) ∧
    ((s.valid s.tempReadIndex = true → s.tempReadIndex = s.tempWriteIndex) →
      s.valid (s.back n) = true)
  | .stepBack => (s.valid s.tempReadIndex = true → s.tempReadIndex = s.tempWriteIndex) ∧
    s.valid (s.back n) = true
  | .image | .livePaused | .liveDelayed | .storePaused => s.Anchored n ∧
    (s.delayed = true → s.paused = false → s.tempReadIndex ≠ s.tempWriteIndex)
  | .liveSend => s.delayed = true → s.paused = true
  | .store => s.Anchored n ∧
    (s.delayed = true → slot n s.tempReadIndex ≠ slot n s.tempWriteIndex)
  | .resume stage next => s.tempReadIndex = s.tempWriteIndex ∧
    (stage = .rate → next = .image → s.delayed = true → s.paused = true)

/-- The first `m` slots are stored, and the next image goes behind them. -/
structure Stream.Sound (m : ℤ) (s : Stream) : Prop where
  stored : ∀ i, s.valid i = true ↔ 0 ≤ i ∧ i < m
  read : 0 ≤ s.tempReadIndex ∧ s.tempReadIndex ≤ n
  write : m = 0 ∧ s.tempWriteIndex = n ∧ s.tempReadIndex = n ∨
    0 < m ∧ m < n ∧ s.tempWriteIndex = m ∨
    0 < m ∧ m = n ∧ 0 ≤ s.tempWriteIndex ∧ s.tempWriteIndex < n
  playing : s.delayed = true → s.paused = false → s.tempReadIndex = n →
    s.tempReadIndex = s.tempWriteIndex
  at_pc : s.At n s.pc
  log : ∀ a ∈ s.log, a.Safe n

end Definitions

variable {n frameMod m : ℤ} {s t : Stream} {c : Command}

theorem processCommand_tempReadIndex : (s.processCommand c).tempReadIndex = s.tempReadIndex := by
  rw [Stream.processCommand]
  split_ifs <;> rfl

theorem processCommand_tempWriteIndex : (s.processCommand c).tempWriteIndex = s.tempWriteIndex := by
  rw [Stream.processCommand]
  split_ifs <;> rfl

theorem processCommand_valid : (s.processCommand c).valid = s.valid := by
  rw [Stream.processCommand]
  split_ifs <;> rfl

theorem processCommand_pc : (s.processCommand c).pc = s.pc := by
  rw [Stream.processCommand]
  split_ifs <;> rfl

theorem processCommand_log : (s.processCommand c).log = s.log := by
  rw [Stream.processCommand]
  split_ifs <;> rfl

theorem processCommand_step : (s.processCommand c).step = c.step s.step := by
  rw [Stream.processCommand]
  split_ifs <;> rfl

/-- A command that does not begin a pause leaves it or ends it. -/
theorem processCommand_paused (h : (s.processCommand c).paused = true) :
    c.pauses = true ∨ s.paused = true := by
  rw [Stream.processCommand] at h
  split_ifs at h with hpauses hplays hpaused
  · exact .inl hpauses
  · exact .inr h

theorem processCommand_delayed (h : (s.processCommand c).delayed = true) :
    s.delayed = true ∨ c.pauses = true ∨ c.plays = true ∧ s.paused = true := by
  rw [Stream.processCommand] at h
  split_ifs at h with hpauses hplays hpaused
  · exact .inr (.inl hpauses)
  · exact .inr (.inr ⟨hplays, hpaused⟩)
  · exact .inl h

/-- Delayed play that is not paused was so before, or a pause has ended. -/
theorem processCommand_playing (h : (s.processCommand c).delayed = true)
    (h' : (s.processCommand c).paused = false) :
    s.delayed = true ∧ s.paused = false ∨ c.plays = true ∧ s.paused = true := by
  rw [Stream.processCommand] at h h'
  split_ifs at h h' with hpauses hplays hpaused
  · exact .inr ⟨hplays, hpaused⟩
  · exact .inl ⟨h, h'⟩

theorem onStored_processCommand : (s.processCommand c).onStored n ↔ s.onStored n := by
  rw [Stream.onStored, Stream.onStored, processCommand_valid, processCommand_tempReadIndex,
    processCommand_tempWriteIndex]

theorem Stream.Anchored.processCommand (h : s.Anchored n) (hc : c.Timely n s)
    (hpc : s.pc.settles = false) : (s.processCommand c).Anchored n := by
  intro hoff
  rw [onStored_processCommand] at hoff
  rw [processCommand_tempReadIndex]
  obtain ⟨hread, hpaused⟩ := h hoff
  refine ⟨hread, ?_⟩
  cases hp : (s.processCommand c).paused with
  | false => rfl
  | true =>
    exfalso
    rcases processCommand_paused hp with hpauses | hp
    · exact hoff (hc.pausing hpauses hpc)
    · rw [hpaused] at hp
      cases hp

theorem Stream.At.processCommand (h : s.At n s.pc) (hc : c.Timely n s) :
    (s.processCommand c).At n s.pc := by
  have hanchored : s.pc.settles = false → s.Anchored n → (s.processCommand c).Anchored n :=
    fun hpc h ↦ h.processCommand hc hpc
  have hplaying : s.pc.beforeStore = true →
      (s.delayed = true → s.paused = false → s.tempReadIndex ≠ s.tempWriteIndex) →
      (s.processCommand c).delayed = true → (s.processCommand c).paused = false →
      s.tempReadIndex ≠ s.tempWriteIndex := by
    intro hpc h hdelayed hpaused
    rcases processCommand_playing hdelayed hpaused with ⟨hd, hp⟩ | ⟨hplays, hp⟩
    · exact h hd hp
    · exact (hc.equal hplays hp).2 hpc
  have hback : c.Timely n s → s.pc.inStep = true →
      (s.valid s.tempReadIndex = true → s.tempReadIndex = s.tempWriteIndex) →
      (s.processCommand c).back n = s.back n := by
    intro hc hpc hundone
    simp only [Stream.back, processCommand_tempReadIndex, processCommand_step,
      hc.stepping hpc hundone]
  cases hpc : s.pc with
  | top | delayed | overrun | stepDone | rewound | storeCheck =>
    rw [hpc] at h
    exact hanchored (by rw [hpc]; rfl) h
  | paused =>
    rw [hpc] at h
    refine ⟨?_, hanchored (by rw [hpc]; rfl) h.2⟩
    rw [processCommand_tempReadIndex, processCommand_tempWriteIndex]
    exact h.1
  | play =>
    rw [hpc] at h
    simp only [Stream.At, onStored_processCommand, processCommand_tempReadIndex,
      processCommand_tempWriteIndex]
    exact h
  | turn stage =>
    rw [hpc] at h
    simp only [Stream.At, onStored_processCommand, processCommand_tempReadIndex]
    exact h
  | move | stepping | stepMove | keepalive =>
    rw [hpc] at h
    simp only [Stream.At, processCommand_valid, processCommand_tempReadIndex,
      processCommand_tempWriteIndex]
    exact h
  | stepLook =>
    rw [hpc] at h
    simp only [Stream.At, processCommand_valid, processCommand_tempReadIndex,
      processCommand_tempWriteIndex]
    refine ⟨h.1, fun hundone ↦ ?_⟩
    rw [hback hc (by rw [hpc]; rfl) hundone]
    exact h.2 hundone
  | stepBack =>
    rw [hpc] at h
    simp only [Stream.At, processCommand_valid, processCommand_tempReadIndex,
      processCommand_tempWriteIndex]
    rw [hback hc (by rw [hpc]; rfl) h.1]
    exact h
  | image | livePaused | liveDelayed | storePaused =>
    rw [hpc] at h
    refine ⟨hanchored (by rw [hpc]; rfl) h.1, ?_⟩
    rw [processCommand_tempReadIndex, processCommand_tempWriteIndex]
    exact hplaying (by rw [hpc]; rfl) h.2
  | liveSend =>
    rw [hpc] at h
    intro hdelayed
    by_contra hpaused
    rcases processCommand_playing hdelayed (by simpa using hpaused) with ⟨hd, hp⟩ | ⟨hplays, hp⟩
    · rw [h hd] at hp
      cases hp
    · exact (hc.equal hplays hp).1 hpc
  | store =>
    rw [hpc] at h
    refine ⟨hanchored (by rw [hpc]; rfl) h.1, ?_⟩
    rw [processCommand_tempReadIndex, processCommand_tempWriteIndex]
    intro hdelayed
    rcases processCommand_delayed hdelayed with hd | hset
    · exact h.2 hd
    · exact hc.storing hset hpc
  | resume stage next =>
    rw [hpc] at h
    refine ⟨?_, ?_⟩
    · rw [processCommand_tempReadIndex, processCommand_tempWriteIndex]
      exact h.1
    · intro hstage hnext hdelayed
      by_contra hpaused
      subst hstage hnext
      have hne := hplaying (by rw [hpc]; rfl)
        (fun hd hp ↦ by rw [h.2 rfl rfl hd] at hp; cases hp) hdelayed (by simpa using hpaused)
      exact hne h.1

theorem Stream.Sound.processCommand (h : s.Sound n m) (hc : c.Timely n s) :
    (s.processCommand c).Sound n m where
  stored := by
    rw [processCommand_valid]
    exact h.stored
  read := by
    rw [processCommand_tempReadIndex]
    exact h.read
  write := by
    rw [processCommand_tempReadIndex, processCommand_tempWriteIndex]
    exact h.write
  playing := by
    rw [processCommand_tempReadIndex, processCommand_tempWriteIndex]
    intro hdelayed hpaused
    rcases processCommand_playing hdelayed hpaused with ⟨hd, hp⟩ | ⟨hplays, hp⟩
    · exact h.playing hd hp
    · exact hc.initial hplays hp
  at_pc := by
    rw [processCommand_pc]
    exact h.at_pc.processCommand hc
  log := by
    rw [processCommand_log]
    exact h.log

end ZoneMinder.MonitorStream
