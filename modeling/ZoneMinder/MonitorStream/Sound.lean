import ZoneMinder.MonitorStream.Timely

namespace ZoneMinder.MonitorStream

open Lib

variable {n frameMod m : ℤ} {s t : Stream}

section Steps

theorem slot_eq (hn : 0 < n) {i : ℤ} (hi : 0 ≤ i ∧ i ≤ n) : slot n i = if i = n then 0 else i :=
  modAdd_zero hn hi.1 hi.2

theorem slot_range (hn : 0 < n) {i : ℤ} (hi : 0 ≤ i ∧ i ≤ n) : 0 ≤ slot n i ∧ slot n i < n :=
  modAdd_range hn (by omega)

theorem Stream.Sound.write_range (h : s.Sound n m) (hn : 0 < n) :
    0 ≤ s.tempWriteIndex ∧ s.tempWriteIndex ≤ n := by
  rcases h.write with ⟨-, hw, -⟩ | ⟨_, _, hw⟩ | ⟨-, -, hw, hw'⟩ <;> omega

theorem Stream.Sound.pos (h : s.Sound n m) (hne : s.tempReadIndex ≠ s.tempWriteIndex) : 0 < m := by
  rcases h.write with ⟨-, hw, hr⟩ | ⟨hm, -⟩ | ⟨hm, -⟩
  · rw [hw, hr] at hne
    exact absurd rfl hne
  · exact hm
  · exact hm

theorem Stream.Sound.goto (h : s.Sound n m) (pc : Pc) (hat : s.At n pc) :
    ({ s with pc := pc } : Stream).Sound n m :=
  ⟨h.stored, h.read, h.write, h.playing, hat, h.log⟩

/-- Accesses that are safe, and on to another point. -/
theorem Stream.Sound.access (h : s.Sound n m) (pc : Pc) (hat : s.At n pc) {accesses : List Access}
    (hsafe : ∀ a ∈ accesses, a.Safe n) :
    ({ s with log := s.log ++ accesses, pc := pc } : Stream).Sound n m := by
  refine ⟨h.stored, h.read, h.write, h.playing, hat, ?_⟩
  intro a ha
  rcases List.mem_append.mp ha with ha | ha
  · exact h.log a ha
  · exact hsafe a ha

/-- The read position moves to a slot of the ring. -/
theorem Stream.Sound.moved (h : s.Sound n m) (pc : Pc) (hm : 0 < m) {read : ℤ}
    (hread : 0 ≤ read ∧ read < n) (hat : ({ s with tempReadIndex := read } : Stream).At n pc) :
    ({ s with tempReadIndex := read, pc := pc } : Stream).Sound n m := by
  refine ⟨h.stored, ⟨hread.1, hread.2.le⟩, ?_, ?_, hat, h.log⟩
  · exact .inr (h.write.resolve_left fun hw ↦ by omega)
  · intro _ _ hn
    exact absurd hn hread.2.ne

theorem anchored_of_onStored (h : s.onStored n) : s.Anchored n := fun hoff ↦ absurd h hoff

/-- On a slot that was stored, the next one is stored or comes to be written; the one before is
stored, or it is the last of the ring. -/
theorem Stream.Sound.onStored_moved (h : s.Sound n m) (hn : 0 < n)
    (hvalid : s.valid (slot n s.tempReadIndex) = true) (forward : Prop) [Decidable forward] :
    let t : Stream :=
      { s with tempReadIndex := modAdd s.tempReadIndex (if forward then 1 else -1) n }
    (0 ≤ t.tempReadIndex ∧ t.tempReadIndex < n) ∧ (¬t.onStored n → t.tempReadIndex = n - 1) := by
  intro t
  have hrange : 0 ≤ t.tempReadIndex ∧ t.tempReadIndex < n := by
    apply modAdd_range hn
    have hread := h.read.1
    split_ifs <;> omega
  refine ⟨hrange, ?_⟩
  intro hoff
  have hslot := (h.stored _).mp hvalid
  rw [slot_eq hn h.read] at hslot
  have hnot : ¬(t.tempReadIndex < m ∨ t.tempReadIndex = s.tempWriteIndex) := by
    rintro (hlt | heq)
    · apply hoff
      left
      rw [slot_eq hn ⟨hrange.1, hrange.2.le⟩, if_neg hrange.2.ne]
      exact (h.stored _).mpr ⟨hrange.1, hlt⟩
    · exact hoff (.inr heq)
  have hread := h.read
  have hwrite := h.write
  have ht : t.tempReadIndex = modAdd s.tempReadIndex (if forward then 1 else -1) n := rfl
  by_cases hforward : forward
  · rw [if_pos hforward] at ht
    by_cases hend : s.tempReadIndex = n
    · rw [hend, modAdd_one_end hn] at ht
      rw [if_pos hend] at hslot
      split_ifs at ht <;> omega
    · rw [modAdd_one hn hread.1 (by omega)] at ht
      rw [if_neg hend] at hslot
      split_ifs at ht <;> omega
  · rw [if_neg hforward, modAdd_neg_one hn hread.1 hread.2] at ht
    split_ifs at ht hslot <;> omega

end Steps

section Points

variable (hn : 0 < n)
include hn

theorem Stream.Sound.play (h : s.Sound n m) (hat : s.At n .play) (i : Input) :
    (s.play n frameMod i).Sound n m := by
  have hrange := slot_range hn h.read
  have hlook : ∀ a ∈ [Access.look (slot n s.tempReadIndex)], a.Safe n := by
    intro a ha
    rw [List.mem_singleton.mp ha]
    exact hrange
  rw [Stream.play]
  split_ifs with hvalid hdue hmod
  · refine h.access .move ⟨hat.1, hvalid⟩ ?_
    intro a ha
    rcases List.mem_cons.mp ha with rfl | ha
    · exact hrange
    · rw [List.mem_singleton.mp ha]
      exact ⟨hrange, hvalid⟩
  · exact h.access .move ⟨hat.1, hvalid⟩ hlook
  · exact h.access .rewound (anchored_of_onStored (.inl hvalid)) hlook
  · have hoff : ¬s.onStored n := fun hon ↦ hon.elim hvalid hat.1
    exact h.access (.turn .paused) ⟨hoff, hat.2 hoff⟩ hlook

theorem Stream.Sound.turn (h : s.Sound n m) {stage : Turn} (hat : s.At n (.turn stage))
    (hrate : stage = .read → s.replayRate < 0) : (s.turn n stage).Sound n m := by
  obtain ⟨hoff, hread⟩ := hat
  cases stage with
  | paused => exact ⟨h.stored, h.read, h.write, fun _ hp ↦ by (cases hp), ⟨hoff, hread⟩, h.log⟩
  | delayed =>
    refine ⟨h.stored, h.read, h.write, ?_, ⟨hoff, hread⟩, h.log⟩
    intro _ _ hend
    have hend' : s.tempReadIndex = n := hend
    omega
  | read =>
    have hm : 0 < m := h.pos fun heq ↦ hoff (.inr heq)
    have hback : modAdd s.tempReadIndex (if 0 ≤ s.replayRate then -1 else 1) n = 0 := by
      have hneg := hrate rfl
      rw [if_neg (by omega), hread, modAdd_one hn (by omega) (by omega), if_pos (by omega)]
    rw [Stream.turn, hback]
    refine h.moved .rewound hm ⟨le_rfl, hn⟩ (anchored_of_onStored (.inl ?_))
    rw [slot_eq hn ⟨le_rfl, hn.le⟩, if_neg hn.ne]
    exact (h.stored 0).mpr ⟨le_rfl, hm⟩

theorem Stream.Sound.stepMove (h : s.Sound n m) (hat : s.At n .stepMove) :
    ({ s with
      tempReadIndex := modAdd s.tempReadIndex (if 0 < s.step then 1 else -1) n
      pc := .stepLook } : Stream).Sound n m := by
  obtain ⟨hne, hvalid⟩ := hat
  have hrange := (h.onStored_moved hn hvalid (0 < s.step)).1
  refine h.moved .stepLook (h.pos hne) hrange ⟨hrange, fun _ ↦ ?_⟩
  have hread := h.read
  have hback : modAdd (modAdd s.tempReadIndex (if 0 < s.step then 1 else -1) n)
      (if 0 < s.step then -1 else 1) n = slot n s.tempReadIndex := by
    apply modAdd_modAdd hn hread.1 <;> split_ifs <;> omega
  change s.valid (modAdd (modAdd s.tempReadIndex (if 0 < s.step then 1 else -1) n)
    (if 0 < s.step then -1 else 1) n) = true
  rw [hback]
  exact hvalid

theorem Stream.Sound.stepLook (h : s.Sound n m) (hat : s.At n .stepLook) :
    s.stepLook.Sound n m := by
  obtain ⟨hrange, hback⟩ := hat
  rw [Stream.stepLook]
  split_ifs with hundone
  · have hundone' : s.valid s.tempReadIndex = true → s.tempReadIndex = s.tempWriteIndex := by
      intro hvalid
      exact hundone.resolve_left (by rw [hvalid]; simp)
    refine h.access .stepBack ⟨hundone', hback hundone'⟩ ?_
    intro a ha
    rw [List.mem_singleton.mp ha]
    exact hrange
  · rw [not_or, Bool.not_eq_false] at hundone
    have hslot : slot n s.tempReadIndex = s.tempReadIndex := by
      rw [slot_eq hn h.read, if_neg hrange.2.ne]
    refine h.access .stepDone (anchored_of_onStored (.inl ?_)) ?_
    · rw [hslot]
      exact hundone.1
    · intro a ha
      rcases List.mem_cons.mp ha with rfl | ha
      · exact hrange
      · rw [List.mem_singleton.mp ha]
        exact ⟨hrange, hundone.1⟩

theorem Stream.Sound.stepBack (h : s.Sound n m) (hat : s.At n .stepBack) :
    ({ s with
      tempReadIndex := modAdd s.tempReadIndex (if 0 < s.step then -1 else 1) n
      pc := .stepDone } : Stream).Sound n m := by
  have hvalid : s.valid (s.back n) = true := hat.2
  have hm := (h.stored _).mp hvalid
  have hrange : 0 ≤ s.back n ∧ s.back n < n := by
    apply modAdd_range hn
    have hread := h.read.1
    split_ifs <;> omega
  refine h.moved .stepDone (by omega) hrange (anchored_of_onStored (.inl ?_))
  change s.valid (slot n (s.back n)) = true
  rw [slot_eq hn ⟨hrange.1, hrange.2.le⟩, if_neg hrange.2.ne]
  exact hvalid

theorem Stream.Sound.move (h : s.Sound n m) (hat : s.At n .move) (hpc : s.pc = .move)
    (hp : PassTimely n s) :
    ({ s with
      tempReadIndex := modAdd s.tempReadIndex (if 0 < s.replayRate then 1 else -1) n
      pc := .rewound } : Stream).Sound n m := by
  obtain ⟨hne, hvalid⟩ := hat
  obtain ⟨hrange, hlast⟩ := h.onStored_moved hn hvalid (0 < s.replayRate)
  refine h.moved .rewound (h.pos hne) hrange fun hoff ↦ ⟨hlast hoff, ?_⟩
  cases hpaused : s.paused with
  | false => rfl
  | true => exact absurd (hp.moving hpc hpaused) hoff

theorem Stream.Sound.keepalive (h : s.Sound n m) (hat : s.At n .keepalive) :
    ({ s with
      log := s.log ++ [.send (slot n s.tempReadIndex) (s.valid (slot n s.tempReadIndex))]
      pc := .rewound } : Stream).Sound n m := by
  refine h.access .rewound (anchored_of_onStored (.inl hat.2)) ?_
  intro a ha
  rw [List.mem_singleton.mp ha]
  exact ⟨slot_range hn h.read, hat.2⟩

theorem Stream.Sound.liveSend (h : s.Sound n m) (hat : s.At n .liveSend) :
    ({ s with tempReadIndex := s.tempWriteIndex, pc := .storePaused } : Stream).Sound n m := by
  refine ⟨h.stored, h.write_range hn, ?_, fun _ _ _ ↦ rfl,
    ⟨anchored_of_onStored (.inr rfl), ?_⟩, h.log⟩
  · refine h.write.imp_left ?_
    rintro ⟨hm, hw, -⟩
    exact ⟨hm, hw, hw⟩
  · intro hdelayed hpaused
    have hpaused' : s.paused = true := hat hdelayed
    have hfalse : s.paused = false := hpaused
    rw [hpaused'] at hfalse
    cases hfalse

/-- Delayed play that is not paused reads another slot than the one that is written next. -/
theorem Stream.Sound.storePaused (h : s.Sound n m) (hat : s.At n .storePaused)
    (hpaused : s.paused = false) : s.At n .store := by
  refine ⟨hat.1, ?_⟩
  intro hdelayed
  have hne := hat.2 hdelayed hpaused
  have hend : s.tempReadIndex ≠ n := fun hr ↦ hne (h.playing hdelayed hpaused hr)
  have hwend : s.tempWriteIndex ≠ n := by
    rcases h.write with ⟨-, -, hr⟩ | ⟨-, hlt, hw⟩ | ⟨-, -, -, hw⟩ <;> omega
  rw [slot_eq hn h.read, slot_eq hn (h.write_range hn), if_neg hend, if_neg hwend]
  exact hne

/-- The slot that is written next is the first that is not stored, as long as there is one. -/
theorem Stream.Sound.slot_write (h : s.Sound n m) :
    0 ≤ m ∧ m ≤ n ∧ slot n s.tempWriteIndex ≤ m ∧
      (m < n → slot n s.tempWriteIndex = m) ∧
      (m < n → modAdd s.tempWriteIndex 1 n = if m + 1 = n then 0 else m + 1) := by
  have hwrite := h.write_range hn
  rw [slot_eq hn hwrite]
  rcases h.write with ⟨hm, hw, -⟩ | ⟨hm, hlt, hw⟩ | ⟨hm, heq, hw⟩
  · refine ⟨by omega, by omega, by rw [if_pos hw]; omega, fun _ ↦ by rw [if_pos hw]; omega, ?_⟩
    intro _
    rw [hw, modAdd_one_end hn, hm]
    split_ifs <;> omega
  · refine ⟨by omega, by omega, by split_ifs <;> omega, fun _ ↦ by split_ifs <;> omega, ?_⟩
    intro _
    rw [hw, modAdd_one hn hm.le hlt]
  · refine ⟨by omega, by omega, by split_ifs <;> omega, fun _ ↦ ?_, fun _ ↦ ?_⟩ <;> omega

theorem Stream.Sound.store (h : s.Sound n m) (hat : s.At n .store) :
    ∃ m', (s.store n).Sound n m' := by
  have hwrite := h.write_range hn
  have hindex : s.tempWriteIndex.tmod n = slot n s.tempWriteIndex := by
    rw [slot_eq hn hwrite, tmod_end hwrite.1 hwrite.2]
  have hrange := slot_range hn hwrite
  have hnext : 0 ≤ modAdd s.tempWriteIndex 1 n ∧ modAdd s.tempWriteIndex 1 n < n :=
    modAdd_range hn (by omega)
  obtain ⟨hm, hmn, hle, hfirst, hthen⟩ := h.slot_write hn
  refine ⟨if m < n then m + 1 else n, ?_, h.read, ?_, ?_, ?_, ?_⟩
  · intro i
    change Function.update s.valid (s.tempWriteIndex.tmod n) true i = true ↔ _
    rw [hindex, Function.update_apply]
    have hold := h.stored i
    by_cases hi : i = slot n s.tempWriteIndex
    · rw [if_pos hi]
      refine ⟨fun _ ↦ ⟨by omega, ?_⟩, fun _ ↦ rfl⟩
      split_ifs with hlt
      · have := hfirst hlt
        omega
      · omega
    · rw [if_neg hi, hold]
      split_ifs with hlt
      · have := hfirst hlt
        omega
      · omega
  · right
    change 0 < (if m < n then m + 1 else n) ∧ (if m < n then m + 1 else n) < n ∧
      modAdd s.tempWriteIndex 1 n = (if m < n then m + 1 else n) ∨ _
    by_cases hlt : m < n
    · rw [if_pos hlt]
      have hnext' := hthen hlt
      split_ifs at hnext' with hfull
      · exact .inr ⟨by omega, hfull, hnext.1, hnext.2⟩
      · exact .inl ⟨by omega, by omega, hnext'⟩
    · rw [if_neg hlt]
      exact .inr ⟨hn, rfl, hnext.1, hnext.2⟩
  · intro hdelayed hpaused hend
    have heq : s.tempReadIndex = s.tempWriteIndex := h.playing hdelayed hpaused hend
    exact absurd (by rw [heq]) (hat.2 hdelayed)
  · intro hoff
    apply hat.1
    rintro (hvalid | heq)
    · apply hoff
      left
      change Function.update s.valid (s.tempWriteIndex.tmod n) true (slot n s.tempReadIndex) = true
      rw [Function.update_apply, hvalid]
      split_ifs <;> rfl
    · apply hoff
      left
      change Function.update s.valid (s.tempWriteIndex.tmod n) true (slot n s.tempReadIndex) = true
      rw [hindex, heq, Function.update_self]
  · intro a ha
    rcases List.mem_append.mp ha with ha | ha
    · exact h.log a ha
    · rw [List.mem_singleton.mp ha]
      refine ⟨?_, ?_⟩
      · rw [hindex]
        exact hrange
      · rw [hindex]
        cases hdelayed : s.delayed with
        | false => rfl
        | true => simp [hat.2 hdelayed]

omit hn in
theorem Stream.Sound.resume (h : s.Sound n m) {stage : Resume} {next : Next}
    (hat : s.At n (.resume stage next)) : (s.resume next stage).Sound n m := by
  obtain ⟨heq, hrate⟩ := hat
  have hanchored : s.Anchored n := anchored_of_onStored (.inr heq)
  cases stage with
  | paused =>
    exact ⟨h.stored, h.read, h.write, fun _ _ _ ↦ heq, ⟨heq, fun hs ↦ by (cases hs)⟩, h.log⟩
  | delayed =>
    exact ⟨h.stored, h.read, h.write, fun hd ↦ by (cases hd),
      ⟨heq, fun _ _ hd ↦ by (cases hd)⟩, h.log⟩
  | rate =>
    refine ⟨h.stored, h.read, h.write, h.playing, ?_, h.log⟩
    cases next with
    | rewound => exact hanchored
    | top => exact hanchored
    | image =>
      refine ⟨hanchored, ?_⟩
      intro hdelayed hpaused
      have hpaused' : s.paused = true := hrate rfl rfl hdelayed
      have hfalse : s.paused = false := hpaused
      rw [hpaused'] at hfalse
      cases hfalse

end Points

/-- Every step of a pass that is timely keeps what holds at its points. -/
theorem Stream.Sound.advance (hn : 0 < n) (h : s.Sound n m) (hp : PassTimely n s) (i : Input) :
    ∃ m', (s.advance n frameMod i).Sound n m' := by
  have hat := h.at_pc
  rw [Stream.advance]
  cases hpc : s.pc with
  | top =>
    rw [hpc] at hat
    refine ⟨m, ?_⟩
    dsimp only
    split_ifs
    · exact h
    · exact h.goto .delayed hat
  | delayed =>
    rw [hpc] at hat
    refine ⟨m, h.goto _ ?_⟩
    split_ifs with hdelayed
    · exact hat
    · exact ⟨hat, fun h ↦ absurd h hdelayed⟩
  | overrun =>
    rw [hpc] at hat
    refine ⟨m, h.goto _ ?_⟩
    split_ifs with heq
    · exact ⟨heq, fun h ↦ by cases h⟩
    · exact ⟨heq, hat⟩
  | paused =>
    rw [hpc] at hat
    refine ⟨m, h.goto _ ?_⟩
    split_ifs with hpaused
    · refine ⟨hat.1, ?_⟩
      by_contra hvalid
      have hoff : ¬s.onStored n := fun hon ↦ hon.elim hvalid hat.1
      rw [(hat.2 hoff).2] at hpaused
      cases hpaused
    · exact ⟨hat.1, fun hoff ↦ (hat.2 hoff).1⟩
  | play =>
    rw [hpc] at hat
    exact ⟨m, h.play hn hat i⟩
  | turn stage =>
    rw [hpc] at hat
    exact ⟨m, h.turn hn hat fun hstage ↦ hp.turning (by rw [hpc, hstage])⟩
  | move =>
    rw [hpc] at hat
    exact ⟨m, h.move hn hat hpc hp⟩
  | stepping =>
    rw [hpc] at hat
    refine ⟨m, h.goto _ ?_⟩
    split_ifs <;> exact hat
  | stepMove =>
    rw [hpc] at hat
    exact ⟨m, h.stepMove hn hat⟩
  | stepLook =>
    rw [hpc] at hat
    exact ⟨m, h.stepLook hn hat⟩
  | stepBack =>
    rw [hpc] at hat
    exact ⟨m, h.stepBack hn hat⟩
  | stepDone =>
    rw [hpc] at hat
    exact ⟨m, h.stored, h.read, h.write, h.playing, hat, h.log⟩
  | keepalive =>
    rw [hpc] at hat
    refine ⟨m, ?_⟩
    dsimp only
    split_ifs
    · exact h.keepalive hn hat
    · exact h.goto .rewound (anchored_of_onStored (.inl hat.2))
  | rewound =>
    rw [hpc] at hat
    refine ⟨m, h.goto _ ?_⟩
    split_ifs with heq
    · exact ⟨heq, fun h ↦ by cases h⟩
    · exact ⟨hat, fun _ _ ↦ heq⟩
  | image =>
    rw [hpc] at hat
    refine ⟨m, h.goto _ ?_⟩
    split_ifs
    · exact hat
    · exact hat
    · exact hat.1
  | livePaused =>
    rw [hpc] at hat
    refine ⟨m, h.goto _ ?_⟩
    split_ifs <;> exact hat
  | liveDelayed =>
    rw [hpc] at hat
    refine ⟨m, h.goto _ ?_⟩
    split_ifs with hdelayed
    · exact hat
    · exact fun h ↦ absurd h hdelayed
  | liveSend =>
    rw [hpc] at hat
    exact ⟨m, h.liveSend hn hat⟩
  | storePaused =>
    rw [hpc] at hat
    refine ⟨m, h.goto _ ?_⟩
    split_ifs with hpaused
    · exact hat.1
    · exact h.storePaused hn hat (by simpa using hpaused)
  | store =>
    rw [hpc] at hat
    dsimp only
    split_ifs
    · exact h.store hn hat
    · exact ⟨m, h.goto .top hat.1⟩
  | storeCheck =>
    rw [hpc] at hat
    refine ⟨m, h.goto _ ?_⟩
    split_ifs with heq
    · exact ⟨heq.symm, fun h ↦ by cases h⟩
    · exact hat
  | resume stage next =>
    rw [hpc] at hat
    exact ⟨m, h.resume hat⟩

theorem sound_init (hn : 0 < n) : (init n).Sound n 0 where
  stored i := by
    refine ⟨(by cases ·), ?_⟩
    intro h
    omega
  read := ⟨hn.le, le_rfl⟩
  write := .inl ⟨rfl, rfl, rfl⟩
  playing := fun h ↦ by cases h
  at_pc := anchored_of_onStored (.inr rfl)
  log := fun a ha ↦ by cases ha

theorem sound_run (hn : 0 < n) {ops : List Op}
    (hrun : Run (step n frameMod) (Timely n) (init n) ops s) : ∃ m, s.Sound n m := by
  refine hrun.invariant (I := fun s ↦ ∃ m, s.Sound n m) ?_ ⟨0, sound_init hn⟩
  rintro s op t ⟨m, h⟩ hop hstep
  cases op with
  | command c =>
    obtain rfl := Option.some.inj hstep
    exact ⟨m, h.processCommand hop⟩
  | pass i =>
    obtain rfl := Option.some.inj hstep
    exact h.advance hn hop i

/-- Where every command and every pass is timely, the ring is accessed within its bounds, only what
was stored is sent from it, the slot that is read is not overwritten while `delayed` stays set, and
a write position that catches up with the read position leads back to live play. -/
theorem ring_safe (hn : 0 < n) {ops : List Op}
    (hrun : Run (step n frameMod) (Timely n) (init n) ops s) :
    (∀ a ∈ s.log, a.Safe n) ∧
    (s.pc = .storeCheck → s.tempWriteIndex = s.tempReadIndex → ∀ i : Input,
      let t := (fun s : Stream ↦ s.advance n frameMod i)^[4] s
      t.pc = .top ∧ t.paused = false ∧ t.delayed = false ∧ t.replayRate = rateBase) := by
  obtain ⟨m, h⟩ := sound_run hn hrun
  refine ⟨h.log, ?_⟩
  intro hpc heq i t
  have ht : t = { s with
      pc := .top, paused := false, delayed := false, replayRate := rateBase } := by
    simp [t, Stream.advance, Stream.resume, hpc, heq, Next.pc]
  rw [ht]
  exact ⟨rfl, rfl, rfl, rfl⟩

/-- Two live frames are stored in a ring of two slots, and play is delayed until a third one
overtakes it. -/
theorem ring_safe_overtaken : ∃ s, s.pc = .storeCheck ∧ s.tempWriteIndex = s.tempReadIndex ∧
    s.log.length = 4 ∧ (∀ a ∈ s.log, a.Safe 2) ∧
    ((fun s : Stream ↦ s.advance 2 1 ⟨true, false, true⟩)^[4] s).delayed = false := by
  obtain ⟨s, hrun, hs⟩ := Run.exists_of_any (step 2 1) (Timely 2) (init 2)
    (List.replicate 18 (.pass ⟨true, true, true⟩) ++ .command .pause :: .command .play ::
      List.replicate 9 (.pass ⟨true, false, true⟩))
    (fun s ↦ s.pc = .storeCheck ∧ s.tempWriteIndex = s.tempReadIndex ∧ s.log.length = 4)
    (by decide)
  obtain ⟨hpc, heq, hlog⟩ := of_decide_eq_true hs
  obtain ⟨hsafe, hlive⟩ := ring_safe (by decide) hrun
  exact ⟨s, hpc, heq, hlog, hsafe, (hlive hpc heq _).2.2.1⟩

/-- Without the promise, playing back past the first slot of a ring that is not full and pausing
there sends what was never stored. And where the pause ends while the read position still has its
initial value, the slot that it refers to is overwritten. -/
theorem ring_unsafe :
    (∃ s ops, Run (step 4 1) (fun _ _ ↦ True) (init 4) ops s ∧ .send 3 false ∈ s.log) ∧
    ∃ s ops, Run (step 2 1) (fun _ _ ↦ True) (init 2) ops s ∧ .store 0 true ∈ s.log := by
  constructor
  · obtain ⟨s, hrun, hs⟩ := Run.exists_of_any (step 4 1) (fun _ _ ↦ True) (init 4)
      (List.replicate 18 (.pass ⟨true, true, true⟩) ++ .command .pause :: .command .fastRev ::
        List.replicate 14 (.pass ⟨false, true, false⟩) ++ .command .pause ::
        List.replicate 10 (.pass ⟨false, true, false⟩))
      (fun s ↦ .send 3 false ∈ s.log) (by decide)
    exact ⟨s, _, hrun, of_decide_eq_true hs⟩
  · obtain ⟨s, hrun, hs⟩ := Run.exists_of_any (step 2 1) (fun _ _ ↦ True) (init 2)
      (List.replicate 9 (.pass ⟨true, true, true⟩) ++ .command .pause :: .command .play ::
        List.replicate 20 (.pass ⟨true, false, true⟩))
      (fun s ↦ .store 0 true ∈ s.log) (by decide)
    exact ⟨s, _, hrun, of_decide_eq_true hs⟩

end ZoneMinder.MonitorStream
