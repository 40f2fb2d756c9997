import ZoneMinder.Zmdc.Control

namespace ZoneMinder.Zmdc

open Function Lib

variable {c : Settings} {s t u : Server} {r : Ref} {process : Process} {pid child : Pid}
  {command : Text} {now : ℤ} {daemon : Text} {args : List Text} {op : Op} {ops : List Op}

/-- What an operation asks for a command: to be kept running, or not. -/
def Op.asks (command : Text) : Op → Option Bool
  | .start daemon args _ _ | .restart daemon args _ _ =>
    if commandOf daemon args = command then some true else none
  | .stop daemon args _ => if commandOf daemon args = command then some false else none
  | _ => none

/-- The last thing that was asked for a command. -/
def asked (ops : List Op) (command : Text) : Bool :=
  (ops.filterMap (Op.asks command)).getLastD false

/-- What the server relies on. The client sends names of daemons only, and no child gets the pid
of one whose end the server has not dealt with. -/
def Promise (c : Settings) (s : Server) : Op → Prop
  | .start daemon _ now child | .restart daemon _ now child =>
    daemonPatt c daemon = true ∧ 0 < now ∧ Fresh s child
  | .stop _ _ now | .exited _ now => 0 < now
  | .restartPending _ _ child => Fresh s child
  | .shutdown pids now => 0 < now ∧ ∀ pid, s.pidHash pid ≠ none → pid ∈ pids
  | _ => True

/-- What was asked for is being done. -/
structure Held (c : Settings) (before : List Op) (s : Server) : Prop where
  sound : Sound c s
  asked : s.shuttingDown = false → ∀ command, Wanted s command ↔ asked before command = true
  stopping : s.shuttingDown = true → Stopping s

theorem asked_concat : asked (ops ++ [op]) command =
    (op.asks command).getD (asked ops command) := by
  unfold asked
  rw [List.filterMap_append]
  cases hasks : op.asks command with
  | none => rw [List.filterMap_cons_none hasks, List.filterMap_nil, List.append_nil]; rfl
  | some wanted =>
    rw [List.filterMap_cons_some hasks, List.filterMap_nil, List.getLastD_concat]
    rfl

theorem start_shuttingDown :
    (s.start c daemon args now child).shuttingDown = s.shuttingDown := by
  unfold Server.start
  split
  · rfl
  · dsimp only
    split
    · rfl
    · split
      · split
        · rfl
        · rfl
      · rfl

theorem sendStop_shuttingDown (final : Bool) :
    (s.sendStop final r now).2.shuttingDown = s.shuttingDown := by
  unfold Server.sendStop
  dsimp only
  split
  · rfl
  · split
    · rfl
    · split <;> rfl

theorem stop_shuttingDown : (s.stop daemon args now).shuttingDown = s.shuttingDown := by
  unfold Server.stop
  split
  · rfl
  · exact sendStop_shuttingDown true

theorem restart_shuttingDown :
    (s.restart c daemon args now child).shuttingDown = s.shuttingDown := by
  unfold Server.restart
  dsimp only
  split
  · exact start_shuttingDown
  · split
    · rfl
    · split
      · exact sendStop_shuttingDown false
      · exact start_shuttingDown.trans (sendStop_shuttingDown false)

theorem reap_shuttingDown {stopped : ℤ} :
    (s.reap c pid stopped).shuttingDown = s.shuttingDown := by
  unfold Server.reap
  dsimp only
  split
  · rfl
  · split <;> rfl

/-- A step that changes no record asks for nothing and stops nothing. -/
theorem Held.same (h : Held c ops s) (hsound : Sound c t) (hheap : t.heap = s.heap)
    (hcmd : t.cmdHash = s.cmdHash) (hdown : t.shuttingDown = s.shuttingDown)
    (hasks : ∀ command, op.asks command = none) : Held c (ops ++ [op]) t where
  sound := hsound
  asked hup command := by
    unfold Wanted
    rw [asked_concat, hasks, hheap, hcmd]
    exact h.asked (hdown ▸ hup) command
  stopping hshutdown command r pid := by
    rw [hheap, hcmd]
    exact h.stopping (hdown ▸ hshutdown) command r pid

/-- A step while the server is up, by what it does to what is wanted. -/
theorem Held.up (h : Held c ops s) (hsound : Sound c t) (hup : s.shuttingDown = false)
    (hdown : t.shuttingDown = s.shuttingDown)
    (hwanted : ∀ command, Wanted t command ↔ match op.asks command with
      | some wanted => wanted = true
      | none => Wanted s command) : Held c (ops ++ [op]) t where
  sound := hsound
  asked _ command := by
    rw [asked_concat, hwanted]
    cases op.asks command with
    | none => exact h.asked hup command
    | some wanted => exact Iff.rfl
  stopping hshutdown := absurd (hshutdown.symm.trans (hdown.trans hup)) nofun

theorem asks_true (hasks : ∀ command, op.asks command =
    if commandOf daemon args = command then some true else none)
    (hwanted : ∀ command, Wanted t command ↔ command = commandOf daemon args ∨ Wanted s command)
    (command : Text) : Wanted t command ↔ match op.asks command with
      | some wanted => wanted = true
      | none => Wanted s command := by
  rw [hwanted, hasks]
  by_cases heq : commandOf daemon args = command
  · rw [if_pos heq]
    exact iff_of_true (.inl heq.symm) rfl
  · rw [if_neg heq]
    exact or_iff_right (Ne.symm heq)

theorem guarded {shuttingDown : Bool}
    (h : (if shuttingDown then none else some s) = some t) : shuttingDown = false ∧ t = s := by
  obtain ⟨hup, hsome⟩ := Option.ite_none_left_eq_some.mp h
  exact ⟨Bool.not_eq_true _ ▸ hup, (Option.some.inj hsome).symm⟩

theorem Held.step (h : Held c ops s) (hpromise : Promise c s op) (hstep : step c s op = some t) :
    Held c (ops ++ [op]) t := by
  cases op with
  | start daemon args now child =>
    obtain ⟨hup, rfl⟩ := guarded hstep
    obtain ⟨hdaemon, -, hfresh⟩ := hpromise
    obtain ⟨hsound, hwanted⟩ := start_spec h.sound args now hdaemon hfresh
    exact h.up hsound hup start_shuttingDown (asks_true (fun command ↦ rfl) hwanted)
  | restart daemon args now child =>
    obtain ⟨hup, rfl⟩ := guarded hstep
    obtain ⟨hdaemon, hnow, hfresh⟩ := hpromise
    obtain ⟨hsound, hwanted⟩ := restart_spec h.sound args hdaemon hfresh hnow
    exact h.up hsound hup restart_shuttingDown (asks_true (fun command ↦ rfl) hwanted)
  | stop daemon args now =>
    obtain ⟨hup, rfl⟩ := guarded hstep
    obtain ⟨hsound, hwanted⟩ := stop_spec h.sound daemon args hpromise
    refine h.up hsound hup stop_shuttingDown fun command ↦ ?_
    have hasks : (Op.stop daemon args now).asks command =
        if commandOf daemon args = command then some false else none := rfl
    rw [hwanted, hasks]
    by_cases heq : commandOf daemon args = command
    · rw [if_pos heq]
      exact iff_of_false (fun hwanted ↦ hwanted.1 heq.symm) nofun
    · rw [if_neg heq]
      exact and_iff_right (Ne.symm heq)
  | reload daemon args =>
    obtain ⟨-, rfl⟩ := guarded hstep
    unfold Server.reload
    split
    · exact h.same h.sound rfl rfl rfl fun command ↦ rfl
    · next pid _ => exact h.same (h.sound.kill .hup pid) rfl rfl rfl fun command ↦ rfl
  | logrot pid =>
    obtain rfl := Option.some.inj hstep
    unfold Server.logrot
    split
    · exact h.same h.sound rfl rfl rfl fun command ↦ rfl
    · next pid _ => exact h.same (h.sound.kill .winch pid) rfl rfl rfl fun command ↦ rfl
  | shutdown pids now =>
    obtain ⟨-, rfl⟩ := guarded hstep
    obtain ⟨hsound, hdown, hstopping⟩ := shutdownAll_spec h.sound hpromise.1 hpromise.2
    exact ⟨hsound, fun hup ↦ absurd (hup.symm.trans hdown) nofun, fun _ ↦ hstopping⟩
  | exited pid now =>
    obtain ⟨-, hsome⟩ := Option.ite_none_right_eq_some.mp hstep
    obtain rfl := Option.some.inj hsome
    exact h.same (h.sound.waited hpromise) rfl rfl rfl fun command ↦ rfl
  | restartPending r now child =>
    obtain ⟨hguard, hsome⟩ := Option.ite_none_left_eq_some.mp hstep
    obtain rfl := Option.some.inj hsome
    rw [Bool.or_eq_true, not_or, decide_eq_true_eq, not_not] at hguard
    obtain ⟨hsound, hwanted⟩ := restartPending_spec h.sound now hguard.2 hpromise
    refine h.up hsound (Bool.not_eq_true _ ▸ hguard.1) ?_ hwanted
    unfold Server.restartPending
    split
    · exact start_shuttingDown
    · rfl
  | checkForProcessToKill command now =>
    obtain ⟨htold, hsome⟩ := Option.ite_none_right_eq_some.mp hstep
    obtain rfl := Option.some.inj hsome
    obtain ⟨hsound, hheap, hcmd, hdown⟩ := checkForProcessToKill_spec h.sound now htold
    exact h.same hsound hheap hcmd hdown fun command ↦ rfl
  | reap pid =>
    obtain ⟨stopped, hreap, rfl⟩ := Option.map_eq_some_iff.mp hstep
    refine ⟨h.sound.reap hreap, fun hup command ↦ ?_, fun hdown ↦ ?_⟩
    · rw [asked_concat, reap_wanted h.sound hreap]
      exact h.asked (reap_shuttingDown ▸ hup) command
    · exact (h.stopping (reap_shuttingDown ▸ hdown)).reap h.sound hreap

theorem held_init : Held c [] {} where
  sound :=
    { linked := ⟨nofun, nofun, nofun, nofun, nofun, nofun⟩
      policy := nofun
      terminating := fun _ _ ↦ rfl }
  asked _ _ := iff_of_false (fun ⟨_, hr, _⟩ ↦ nomatch hr) nofun
  stopping := nofun

theorem held (hrun : Run (Zmdc.step c) (Promise c) {} ops t) : Held c ops t :=
  hrun.invariant_along (fun _ _ _ _ h hpromise hstep ↦ h.step hpromise hstep) held_init

theorem Sound.owner (h : Sound c s) (hchild : s.children pid = some command) :
    ∃ r, s.cmdHash command = some r ∧ (s.heap r).pid = some pid := by
  obtain ⟨r, hheld, rfl⟩ := h.linked.child pid command hchild
  obtain ⟨hpid, hcmd⟩ := h.linked.pidHash pid r hheld
  exact ⟨r, hcmd, hpid⟩

theorem Sound.told (h : Sound c s) (hchild : s.children pid = some command)
    (hfinal : ∀ r, s.cmdHash command = some r → (s.heap r).keepalive = false) :
    .term ∈ s.signals pid ∧
      (s.terminatingProcesses command = true ∨ .kill ∈ s.signals pid) := by
  obtain ⟨r, hcmd, hpid⟩ := h.owner hchild
  exact (h.policy command r hcmd).stopping (hfinal r hcmd) pid hpid

theorem Sound.running (h : Sound c s) (hcmd : s.cmdHash command = some r)
    (hheld : s.pidHash pid = some r) :
    s.children pid = some command ∨ s.pidsToReap pid ≠ none := by
  refine (h.linked.alive pid r hheld).imp_left fun halive ↦ ?_
  obtain ⟨command', hchild⟩ := Option.ne_none_iff_exists'.mp halive
  obtain ⟨r', hheld', rfl⟩ := h.linked.child pid command' hchild
  obtain rfl := Option.some.inj (hheld.symm.trans hheld')
  rw [hchild, (h.linked.cmdHash command r hcmd).1]

/-- No command has two children. While the server is up, a command whose last order was to start
or restart it has its child, or waits no longer than the longest delay for a new one, and the child
of any other command was told to stop, will get a KILL or has got it, and has no successor. -/
theorem supervised (hrun : Run (step c) (Promise c) {} ops t) :
    (∀ pid pid' command, t.children pid = some command → t.children pid' = some command →
      pid = pid') ∧
    (t.shuttingDown = false → ∀ command,
      if asked ops command then
        ∃ r, t.cmdHash command = some r ∧ (t.heap r).keepalive = true ∧
          (Waits c (t.heap r) ∨ ∃ pid, (t.heap r).pid = some pid ∧
            (t.children pid = some command ∨ t.pidsToReap pid ≠ none))
      else
        (∀ r, t.cmdHash command = some r → (t.heap r).pending = 0) ∧
          ∀ pid, t.children pid = some command → .term ∈ t.signals pid ∧
            (t.terminatingProcesses command = true ∨ .kill ∈ t.signals pid)) := by
  have hheld := held hrun
  have hsound := hheld.sound
  constructor
  · intro pid pid' command hchild hchild'
    obtain ⟨r, hcmd, hpid⟩ := hsound.owner hchild
    obtain ⟨r', hcmd', hpid'⟩ := hsound.owner hchild'
    obtain rfl := Option.some.inj (hcmd.symm.trans hcmd')
    exact Option.some.inj (hpid.symm.trans hpid')
  · intro hup command
    have hasked := hheld.asked hup command
    split
    · next hwanted =>
      obtain ⟨r, hcmd, hkeep⟩ := hasked.mpr hwanted
      refine ⟨r, hcmd, hkeep, ?_⟩
      cases hpid : (t.heap r).pid with
      | none => exact .inl ((hsound.policy command r hcmd).waiting hpid).1
      | some pid =>
        have hr := hsound.linked.pid command r pid hcmd hpid
        exact .inr ⟨pid, rfl, hsound.running hcmd hr⟩
    · next hnot =>
      have hfinal (r : Ref) (hcmd : t.cmdHash command = some r) : (t.heap r).keepalive = false := by
        rw [← Bool.not_eq_true]
        exact fun hkeep ↦ hnot (hasked.mp ⟨r, hcmd, hkeep⟩)
      refine ⟨fun r hcmd ↦ ?_, fun pid hchild ↦ hsound.told hchild hfinal⟩
      have hpolicy := hsound.policy command r hcmd
      apply hpolicy.running
      intro hpid
      exact absurd ((hpolicy.waiting hpid).1.keepalive.symm.trans (hfinal r hcmd)) nofun

theorem supervised_stopped :
    ∃ t, Run (step ⟨false, 600⟩) (Promise ⟨false, 600⟩) {}
      [.start "zmc".toList ["-m".toList, "1".toList] 100 7,
        .stop "zmc".toList ["-m".toList, "1".toList] 150] t ∧
      t.children 7 = some "zmc -m 1".toList ∧ .term ∈ t.signals 7 ∧
      (t.terminatingProcesses "zmc -m 1".toList = true ∨ .kill ∈ t.signals 7) := by
  have hrun : Run (step ⟨false, 600⟩) (Promise ⟨false, 600⟩) {}
      [.start "zmc".toList ["-m".toList, "1".toList] 100 7,
        .stop "zmc".toList ["-m".toList, "1".toList] 150] _ :=
    .cons ⟨by decide, by decide, rfl, rfl, rfl⟩ rfl (.cons (by decide : (0 : ℤ) < 150) rfl (.nil _))
  refine ⟨_, hrun, rfl, ?_⟩
  have hnot := (supervised hrun).2 rfl "zmc -m 1".toList
  rw [if_neg (by decide)] at hnot
  exact hnot.2 7 rfl

/-- What `check` answers is so: a command that it calls running has its one child, or had it until
an end that is not dealt with yet; one that it calls pending has none and will be started; one that
it does not know has none. -/
theorem check_sound (hrun : Run (step c) (Promise c) {} ops t) (daemon : Text)
    (args : List Text) :
    match t.check daemon args with
    | .running => ∃ r pid, t.cmdHash (commandOf daemon args) = some r ∧
        (t.heap r).pid = some pid ∧
        (t.children pid = some (commandOf daemon args) ∨ t.pidsToReap pid ≠ none)
    | .pending => (∃ r, t.cmdHash (commandOf daemon args) = some r ∧ Waits c (t.heap r)) ∧
        ∀ pid, t.children pid ≠ some (commandOf daemon args)
    | .unknown => ∀ pid, t.children pid ≠ some (commandOf daemon args)
    | .stopped => False := by
  have hsound := (held hrun).sound
  unfold Server.check
  cases hcmd : t.cmdHash (commandOf daemon args) with
  | none =>
    intro pid hchild
    obtain ⟨r, hr, -⟩ := hsound.owner hchild
    exact absurd (hcmd.symm.trans hr) nofun
  | some r =>
    have hpolicy := hsound.policy _ r hcmd
    cases hpid : (t.heap r).pid with
    | none =>
      have hwaits := (hpolicy.waiting hpid).1
      dsimp only
      rw [if_pos (Int.ne_of_gt hwaits.pending)]
      refine ⟨⟨r, rfl, hwaits⟩, fun pid hchild ↦ ?_⟩
      obtain ⟨r', hr', hpid'⟩ := hsound.owner hchild
      obtain rfl := Option.some.inj (hcmd.symm.trans hr')
      exact absurd (hpid.symm.trans hpid') nofun
    | some pid =>
      have hr := hsound.linked.pid _ r pid hcmd hpid
      have hpending := hpolicy.running (by rw [hpid]; exact Option.some_ne_none _)
      dsimp only
      rw [if_neg (not_not.mpr hpending), hpid, Option.bind_some, hr, if_pos Option.isSome_some]
      refine ⟨r, pid, rfl, hpid, ?_⟩
      exact hsound.running hcmd hr

theorem check_sound_crashed :
    ∃ t, Run (step ⟨false, 600⟩) (Promise ⟨false, 600⟩) {}
      [.start "zmc".toList ["-m".toList, "1".toList] 100 7, .exited 7 103, .reap 7] t ∧
      (∃ r, t.cmdHash "zmc -m 1".toList = some r ∧ Waits ⟨false, 600⟩ (t.heap r)) ∧
      ∀ pid, t.children pid ≠ some "zmc -m 1".toList := by
  have hrun : Run (step ⟨false, 600⟩) (Promise ⟨false, 600⟩) {}
      [.start "zmc".toList ["-m".toList, "1".toList] 100 7, .exited 7 103, .reap 7] _ :=
    .cons ⟨by decide, by decide, rfl, rfl, rfl⟩ rfl
      (.cons (by decide : (0 : ℤ) < 103) rfl (.cons trivial rfl (.nil _)))
  exact ⟨_, hrun, check_sound hrun "zmc".toList ["-m".toList, "1".toList]⟩

/-- An operation that stops something does so by the time `T`. -/
def Op.StopsBy (T : ℤ) : Op → Prop
  | .stop _ _ now | .restart _ _ now _ | .shutdown _ now => now ≤ T
  | _ => True

/-- No TERM was sent after the time `T`. -/
def Sent (T : ℤ) (s : Server) : Prop := ∀ r, (s.heap r).termSentAt ≤ T

section

variable {T : ℤ}

theorem Sent.update (h : Sent T s) (hheap : t.heap = update s.heap r process)
    (hprocess : process.termSentAt ≤ T) : Sent T t := by
  intro r'
  rw [hheap, update_apply]
  split
  · exact hprocess
  · exact h r'

theorem Sent.start (h : Sent T s) (hT : 0 ≤ T) : Sent T (s.start c daemon args now child) := by
  unfold Server.start
  split
  · exact h
  · dsimp only
    split
    · have halloc : Sent T (s.alloc (newProcess daemon args)).2 := h.update rfl hT
      exact halloc.update rfl (halloc _)
    · next r _ =>
      split
      · split
        · exact h.update rfl (h r)
        · exact h
      · exact h.update rfl (h r)

theorem Sent.sendStop (h : Sent T s) (final : Bool) (hnow : now ≤ T) :
    Sent T (s.sendStop final r now).2 := by
  unfold Server.sendStop
  dsimp only
  split
  · exact h
  · split
    · exact h
    · split
      · exact h
      · exact h.update rfl hnow

theorem Sent.shutdown (h : Sent T s) (hnow : now ≤ T) (pids : List Pid) :
    Sent T (pids.foldl (Server.stopHeld now) s) := by
  induction pids generalizing s with
  | nil => exact h
  | cons pid pids ih =>
    apply ih
    unfold Server.stopHeld
    split
    · exact h
    · exact h.sendStop true hnow

theorem Sent.reap (h : Sent T s) (hT : 0 ≤ T) {stopped : ℤ} :
    Sent T (s.reap c pid stopped) := by
  cases hheld : s.pidHash pid with
  | none =>
    rw [reap_free hheld]
    exact h
  | some r =>
    have hschedule : (Server.schedule c (ended (s.heap r) stopped)).termSentAt = 0 := by
      unfold Server.schedule
      split <;> rfl
    rw [reap_held hheld]
    split
    · exact h.update rfl (hschedule ▸ hT)
    · exact h.update rfl hT

theorem Sent.step (h : Sent T s) (hT : 0 ≤ T) (hsound : Sound c s) (hop : op.StopsBy T)
    (hstep : Zmdc.step c s op = some t) : Sent T t := by
  cases op with
  | start daemon args now child =>
    obtain ⟨-, rfl⟩ := guarded hstep
    exact h.start hT
  | restart daemon args now child =>
    obtain ⟨-, rfl⟩ := guarded hstep
    unfold Server.restart
    dsimp only
    split
    · exact h.start hT
    · split
      · exact h
      · split
        · exact h.sendStop false hop
        · exact (h.sendStop false hop).start hT
  | stop daemon args now =>
    obtain ⟨-, rfl⟩ := guarded hstep
    unfold Server.stop
    split
    · exact h
    · exact h.sendStop true hop
  | reload daemon args =>
    obtain ⟨-, rfl⟩ := guarded hstep
    unfold Server.reload
    split <;> exact h
  | logrot pid =>
    obtain rfl := Option.some.inj hstep
    unfold Server.logrot
    split <;> exact h
  | shutdown pids now =>
    obtain ⟨-, rfl⟩ := guarded hstep
    exact Sent.shutdown (s := { s with shuttingDown := true }) h hop pids
  | exited pid now =>
    obtain ⟨-, hsome⟩ := Option.ite_none_right_eq_some.mp hstep
    obtain rfl := Option.some.inj hsome
    exact h
  | restartPending r now child =>
    obtain ⟨-, hsome⟩ := Option.ite_none_left_eq_some.mp hstep
    obtain rfl := Option.some.inj hsome
    unfold Server.restartPending
    split
    · exact h.start hT
    · exact h
  | checkForProcessToKill command now =>
    obtain ⟨htold, hsome⟩ := Option.ite_none_right_eq_some.mp hstep
    obtain rfl := Option.some.inj hsome
    intro r
    rw [(checkForProcessToKill_spec hsound now htold).2.1]
    exact h r
  | reap pid =>
    obtain ⟨stopped, -, rfl⟩ := Option.map_eq_some_iff.mp hstep
    exact h.reap hT

theorem sent (hrun : Run (Zmdc.step c) (Promise c) {} ops t) (hT : 0 ≤ T)
    (hops : ∀ op ∈ ops, op.StopsBy T) : Sent T t := by
  have hinv : (∀ op ∈ ops, op.StopsBy T) → Held c ops t ∧ Sent T t := by
    refine hrun.invariant_along (I := fun before s ↦
      (∀ op ∈ before, op.StopsBy T) → Held c before s ∧ Sent T s) ?_ ?_
    · intro before s op t h hpromise hstep hall
      obtain ⟨hbefore, hop⟩ := List.forall_mem_append.mp hall
      obtain ⟨hheld, hsent⟩ := h hbefore
      exact ⟨hheld.step hpromise hstep,
        hsent.step hT hheld.sound (hop op (List.mem_singleton_self op)) hstep⟩
    · exact fun _ ↦ ⟨held_init, fun _ ↦ hT⟩
  exact (hinv hops).2

theorem kill_late (h : Sound c s) (hsent : Sent T s) (hlate : T + killDelay < now)
    (htold : s.terminatingProcesses command = true) :
    (s.checkForProcessToKill command now).terminatingProcesses =
        update s.terminatingProcesses command false ∧
      (s.checkForProcessToKill command now).children = s.children := by
  obtain ⟨r, pid, hcmd, hpid, heq⟩ := checkForProcessToKill_eq h now htold
  have hset : (s.heap r).termSentAt ≠ 0 := (h.policy command r hcmd).told (.inr htold)
  have htime := hsent r
  rw [heq, if_pos ⟨hset, by omega⟩, ← (h.linked.cmdHash command r hcmd).1]
  exact ⟨rfl, rfl⟩

theorem kill_all (h : Sound c s) (hsent : Sent T s) (hlate : T + killDelay < now)
    {commands : List Text} (hnodup : commands.Nodup)
    (htold : ∀ command ∈ commands, s.terminatingProcesses command = true) :
    Sound c (s.checkForProcessesToKill commands now) ∧
      (s.checkForProcessesToKill commands now).heap = s.heap ∧
      (s.checkForProcessesToKill commands now).cmdHash = s.cmdHash ∧
      (s.checkForProcessesToKill commands now).children = s.children ∧
      ∀ command, (s.checkForProcessesToKill commands now).terminatingProcesses command =
        if command ∈ commands then false else s.terminatingProcesses command := by
  induction commands generalizing s with
  | nil => exact ⟨h, rfl, rfl, rfl, fun command ↦ rfl⟩
  | cons command commands ih =>
    obtain ⟨hnew, hnodup⟩ := List.nodup_cons.mp hnodup
    obtain ⟨hfirst, hrest⟩ := List.forall_mem_cons.mp htold
    obtain ⟨hsound, hheap, hcmd, -⟩ := checkForProcessToKill_spec h now hfirst
    obtain ⟨hkilled, hchildren⟩ := kill_late h hsent hlate hfirst
    have hstill (command' : Text) (hmem : command' ∈ commands) :
        (s.checkForProcessToKill command now).terminatingProcesses command' = true := by
      have hne : command' ≠ command := by
        rintro rfl
        exact hnew hmem
      rw [hkilled, update_of_ne hne]
      exact hrest command' hmem
    have hsent' : Sent T (s.checkForProcessToKill command now) := by
      intro r
      rw [hheap]
      exact hsent r
    obtain ⟨hsound', hheap', hcmd', hchildren', hall⟩ := ih hsound hsent' hnodup hstill
    refine ⟨hsound', hheap'.trans hheap, hcmd'.trans hcmd, hchildren'.trans hchildren,
      fun command' ↦ (hall command').trans ?_⟩
    rw [hkilled, update_apply]
    by_cases hmem : command' ∈ commands
    · rw [if_pos hmem, if_pos (List.mem_cons_of_mem _ hmem)]
    · rw [if_neg hmem]
      by_cases heq : command' = command
      · rw [if_pos heq, if_pos (heq ▸ List.mem_cons_self)]
      · rw [if_neg heq, if_neg (List.not_mem_cons_of_ne_of_not_mem heq hmem)]

/-- The loop of shutdownAll comes to its end: all through a shutdown the children left have got
their TERM, and the first pass over %terminating_processes that is made more than KILL_DELAY
seconds after the last stop empties it and leaves no child that has not got a KILL. -/
theorem shutdown_ends (hrun : Run (Zmdc.step c) (Promise c) {} ops s)
    (hdown : s.shuttingDown = true) (hT : 0 ≤ T) (hops : ∀ op ∈ ops, op.StopsBy T)
    (hlate : T + killDelay < now) {commands : List Text} (hnodup : commands.Nodup)
    (hkeys : ∀ command, command ∈ commands ↔ s.terminatingProcesses command = true) :
    (∀ pid command, s.children pid = some command → .term ∈ s.signals pid ∧
      (s.terminatingProcesses command = true ∨ .kill ∈ s.signals pid)) ∧
    (∀ command, (s.checkForProcessesToKill commands now).terminatingProcesses command = false) ∧
    ∀ pid command, s.children pid = some command →
      .kill ∈ (s.checkForProcessesToKill commands now).signals pid := by
  have hheld := held hrun
  have hfinal {u : Server} (hsound : Sound c u) (hheap : u.heap = s.heap)
      (hcmd : u.cmdHash = s.cmdHash) (pid : Pid) (command : Text)
      (hchild : u.children pid = some command) : .term ∈ u.signals pid ∧
        (u.terminatingProcesses command = true ∨ .kill ∈ u.signals pid) := by
    obtain ⟨r, hr, hpid⟩ := hsound.owner hchild
    apply hsound.told hchild
    intro r' hr'
    obtain rfl := Option.some.inj (hr.symm.trans hr')
    rw [hheap] at hpid ⊢
    exact hheld.stopping hdown command r pid (hcmd ▸ hr) hpid
  obtain ⟨hsound, hheap, hcmd, hchildren, hall⟩ := kill_all hheld.sound (sent hrun hT hops) hlate
    hnodup fun command ↦ (hkeys command).mp
  have hnone (command : Text) :
      (s.checkForProcessesToKill commands now).terminatingProcesses command = false := by
    rw [hall]
    split
    · rfl
    · next hmem => exact Bool.not_eq_true _ ▸ mt (hkeys command).mpr hmem
  refine ⟨hfinal hheld.sound rfl rfl, hnone, fun pid command hchild ↦ ?_⟩
  have hkilled := (hfinal hsound hheap hcmd pid command (hchildren ▸ hchild)).2
  exact hkilled.resolve_left (by rw [hnone]; exact Bool.false_ne_true)

theorem shutdown_ends_stubborn :
    ∃ s, Run (Zmdc.step ⟨false, 600⟩) (Promise ⟨false, 600⟩) {}
      [.start "zmc".toList ["-m".toList, "1".toList] 100 7, .shutdown [7] 150] s ∧
      .kill ∈ (s.checkForProcessesToKill ["zmc -m 1".toList] 181).signals 7 := by
  have hrun : Run (Zmdc.step ⟨false, 600⟩) (Promise ⟨false, 600⟩) {}
      [.start "zmc".toList ["-m".toList, "1".toList] 100 7, .shutdown [7] 150]
      ((Server.start ⟨false, 600⟩ "zmc".toList ["-m".toList, "1".toList] 100 7 {}).shutdownAll
        [7] 150) := by
    refine .cons ⟨by decide, by decide, rfl, rfl, rfl⟩ rfl
      (.cons ⟨by decide, fun pid hheld ↦ ?_⟩ rfl (.nil _))
    by_contra hne
    exact hheld (update_of_ne (List.ne_of_not_mem_cons hne) _ _)
  have hops (op : Op) (hop : op ∈ [.start "zmc".toList ["-m".toList, "1".toList] 100 7,
      .shutdown [7] 150]) : op.StopsBy 150 := by
    obtain rfl | hop := List.mem_cons.mp hop
    · trivial
    · obtain rfl := List.mem_singleton.mp hop
      exact Int.le_refl _
  have hkeys (command : Text) : command ∈ ["zmc -m 1".toList] ↔
      ((Server.start ⟨false, 600⟩ "zmc".toList ["-m".toList, "1".toList] 100 7 {}).shutdownAll
        [7] 150).terminatingProcesses command = true := by
    change _ ↔ update (fun _ ↦ false) "zmc -m 1".toList true command = true
    rw [List.mem_singleton, update_apply]
    split
    · next heq => exact iff_of_true heq rfl
    · next hne => exact iff_of_false hne nofun
  exact ⟨_, hrun, (shutdown_ends hrun rfl (by decide) hops (by decide) (List.pairwise_singleton _ _)
    hkeys).2.2 7 "zmc -m 1".toList rfl⟩

end

end ZoneMinder.Zmdc
