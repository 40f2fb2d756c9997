import ZoneMinder.Zmdc.Supervision

namespace ZoneMinder.Zmdc

open Function Lib

variable {c : Settings} {s t : Server} {r : Ref} {process : Process} {pid child : Pid}
  {command : Text} {now : ℤ} {daemon : Text} {args : List Text}

theorem stop_spec (h : Sound c s) (daemon : Text) (args : List Text) (hnow : 0 < now) :
    Sound c (s.stop daemon args now) ∧ ∀ command,
      Wanted (s.stop daemon args now) command ↔
        command ≠ commandOf daemon args ∧ Wanted s command := by
  unfold Server.stop
  cases hcmd : s.cmdHash (commandOf daemon args) with
  | none =>
    refine ⟨h, fun command ↦ ⟨fun hwanted ↦ ⟨?_, hwanted⟩, And.right⟩⟩
    rintro rfl
    obtain ⟨r, hr, -⟩ := hwanted
    exact absurd (hcmd.symm.trans hr) nofun
  | some r =>
    obtain ⟨hsound, hother, hself⟩ := sendStop_spec h hcmd true hnow
    refine ⟨hsound, fun command ↦ ?_⟩
    by_cases heq : command = commandOf daemon args
    · subst heq
      refine iff_of_false ?_ (fun hwanted ↦ hwanted.1 rfl)
      split at hself
      · exact fun hwanted ↦ Bool.noConfusion (hself.mp hwanted)
      · rintro ⟨r', hr', -⟩
        exact absurd (hself.symm.trans hr') nofun
    · exact (hother command heq).trans (and_iff_right heq).symm

theorem Fresh.sendStop (h : Fresh s child) (final : Bool) (r : Ref) (now : ℤ) :
    Fresh (s.sendStop final r now).2 child := by
  unfold Server.sendStop
  dsimp only
  split
  · exact ⟨h.1, h.2, h.3⟩
  · split
    · exact h
    · split
      · exact h
      · exact ⟨h.1, h.2, h.3⟩

theorem restart_spec (h : Sound c s) (args : List Text) (hdaemon : daemonPatt c daemon = true)
    (hfresh : Fresh s child) (hnow : 0 < now) :
    Sound c (s.restart c daemon args now child) ∧ ∀ command,
      Wanted (s.restart c daemon args now child) command ↔
        command = commandOf daemon args ∨ Wanted s command := by
  unfold Server.restart
  dsimp only
  cases hcmd : s.cmdHash (commandOf daemon args) with
  | none => exact start_spec h args now hdaemon hfresh
  | some r =>
    dsimp only
    split
    · next hagain =>
      refine ⟨h, fun command ↦ ⟨.inr, ?_⟩⟩
      rintro (rfl | hwanted)
      · exact ⟨r, hcmd, (Bool.and_eq_true_iff.mp hagain).2⟩
      · exact hwanted
    · obtain ⟨hsound, hother, hself⟩ := sendStop_spec h hcmd false hnow
      split
      · next hsent =>
        refine ⟨hsound, fun command ↦ ?_⟩
        by_cases heq : command = commandOf daemon args
        · subst heq
          rw [if_pos hsent] at hself
          exact iff_of_true (hself.mpr rfl) (.inl rfl)
        · exact (hother command heq).trans (or_iff_right heq).symm
      · obtain ⟨hstart, hwanted⟩ := start_spec hsound args now hdaemon (hfresh.sendStop false r now)
        refine ⟨hstart, fun command ↦ (hwanted command).trans ?_⟩
        by_cases heq : command = commandOf daemon args
        · exact iff_of_true (.inl heq) (.inl heq)
        · rw [or_iff_right heq, or_iff_right heq, hother command heq]

theorem checkForProcessToKill_eq (h : Sound c s) (now : ℤ)
    (htold : s.terminatingProcesses command = true) :
    ∃ r pid, s.cmdHash command = some r ∧ (s.heap r).pid = some pid ∧
      s.checkForProcessToKill command now =
        if (s.heap r).termSentAt ≠ 0 ∧ now - (s.heap r).termSentAt > killDelay then
          (s.kill .kill pid).put r (s.heap r) false
        else s := by
  cases hcmd : s.cmdHash command with
  | none => exact absurd (htold.symm.trans (h.terminating command hcmd)) nofun
  | some r =>
    obtain ⟨rfl, -⟩ := h.linked.cmdHash command r hcmd
    cases hpid : (s.heap r).pid with
    | none => exact absurd (htold.symm.trans ((h.policy _ r hcmd).waiting hpid).2) nofun
    | some pid =>
      refine ⟨r, pid, rfl, hpid, ?_⟩
      have hsame : update (s.kill .kill pid).heap r (s.heap r) = s.heap := update_eq_self r s.heap
      unfold Server.checkForProcessToKill Server.put
      dsimp only
      rw [hcmd]
      dsimp only
      rw [hpid, hsame]
      rfl

theorem checkForProcessToKill_spec (h : Sound c s) (now : ℤ)
    (htold : s.terminatingProcesses command = true) :
    Sound c (s.checkForProcessToKill command now) ∧
      (s.checkForProcessToKill command now).heap = s.heap ∧
      (s.checkForProcessToKill command now).cmdHash = s.cmdHash ∧
      (s.checkForProcessToKill command now).shuttingDown = s.shuttingDown := by
  obtain ⟨r, pid, hcmd, hpid, heq⟩ := checkForProcessToKill_eq h now htold
  rw [heq]
  split
  · next hlate =>
    refine ⟨?_, update_eq_self _ _, rfl, rfl⟩
    obtain ⟨rfl, -⟩ := h.linked.cmdHash command r hcmd
    have hpolicy := h.policy _ r hcmd
    refine (h.kill .kill pid).put (s.heap r) false hcmd rfl { hpolicy with
      waiting := fun hnone ↦ absurd (hpid.symm.trans hnone) nofun
      told := fun _ ↦ hlate.1
      stopping := fun hfinal pid' hpid' ↦ ?_ }
    obtain rfl := Option.some.inj (hpid.symm.trans hpid')
    exact ⟨subset_kill .kill pid pid s (hpolicy.stopping hfinal pid hpid).1,
      .inr (mem_kill .kill pid s)⟩
  · exact ⟨h, rfl, rfl, rfl⟩

theorem waited_children (pid' : Pid) : (s.waited pid now).children pid' =
    if pid' = pid then none else s.children pid' := update_apply _ _ _ _

theorem waited_pidsToReap (pid' : Pid) : (s.waited pid now).pidsToReap pid' =
    if pid' = pid then some now else s.pidsToReap pid' := update_apply _ _ _ _

theorem Sound.waited (h : Sound c s) (hnow : 0 < now) : Sound c (s.waited pid now) where
  linked := by
    constructor
    · exact h.linked.cmdHash
    · exact h.linked.pidHash
    · exact h.linked.pid
    · intro pid' command hchild
      rw [waited_children] at hchild
      split at hchild
      · contradiction
      · exact h.linked.child pid' command hchild
    · intro pid' r hheld
      rw [waited_children, waited_pidsToReap]
      split
      · exact .inr (Option.some_ne_none _)
      · exact h.linked.alive pid' r hheld
    · intro pid' stopped hreap
      rw [waited_pidsToReap] at hreap
      rw [waited_children]
      split at hreap
      · obtain rfl := Option.some.inj hreap
        exact ⟨if_pos ‹_›, hnow⟩
      · next hne =>
        rw [if_neg hne]
        exact h.linked.waited pid' stopped hreap
  policy := h.policy
  terminating := h.terminating

/-- A process whose end is seen, with the entry that stays of it in cmd_hash. -/
def Server.release (pid : Pid) (r : Ref) (process : Process) (entry : Option Ref) (s : Server) :
    Server :=
  { s with
    heap := update s.heap r process
    cmdHash := update s.cmdHash process.command entry
    pidHash := update s.pidHash pid none
    terminatingProcesses := update s.terminatingProcesses process.command false
    pidsToReap := update s.pidsToReap pid none }

section

variable {entry : Option Ref}

theorem release_heap (r' : Ref) : (s.release pid r process entry).heap r' =
    if r' = r then process else s.heap r' := update_apply _ _ _ _

theorem release_cmdHash (command : Text) : (s.release pid r process entry).cmdHash command =
    if command = process.command then entry else s.cmdHash command := update_apply _ _ _ _

theorem release_pidHash (pid' : Pid) : (s.release pid r process entry).pidHash pid' =
    if pid' = pid then none else s.pidHash pid' := update_apply _ _ _ _

theorem release_pidsToReap (pid' : Pid) : (s.release pid r process entry).pidsToReap pid' =
    if pid' = pid then none else s.pidsToReap pid' := update_apply _ _ _ _

theorem release_terminating (command : Text) :
    (s.release pid r process entry).terminatingProcesses command =
      if command = process.command then false else s.terminatingProcesses command :=
  update_apply _ _ _ _

/-- The process that is released, as the hashes have it before. -/
structure Released (s : Server) (pid : Pid) (r : Ref) (process : Process)
    (entry : Option Ref) : Prop where
  held : s.pidHash pid = some r
  ended : s.children pid = none
  command : process.command = (s.heap r).command
  pid : process.pid = none
  entry : entry = none ∨ entry = some r

theorem Linked.release (h : Linked s) (hrel : Released s pid r process entry) :
    Linked (s.release pid r process entry) := by
  obtain ⟨hpid, hcmd⟩ := h.pidHash pid r hrel.held
  rw [← hrel.command] at hcmd
  have hother (pid' : Pid) (r' : Ref) (hr' : s.pidHash pid' = some r') (hne : pid' ≠ pid) :
      r' ≠ r := by
    rintro rfl
    exact hne (Option.some.inj ((h.pidHash pid' _ hr').1.symm.trans hpid))
  have hlive (command : Text) (r' : Ref)
      (hr' : (s.release pid r process entry).cmdHash command = some r') :
      s.cmdHash command = some r' := by
    rw [release_cmdHash] at hr'
    split at hr'
    · next heq =>
      rcases hrel.entry with hnone | hsome
      · exact absurd (hnone.symm.trans hr') nofun
      · rw [heq, hcmd, ← hsome, hr']
    · exact hr'
  constructor
  · intro command r' hr'
    have howner := h.cmdHash command r' (hlive command r' hr')
    refine ⟨?_, howner.2⟩
    rw [release_heap]
    split
    · next heq => exact hrel.command.trans (heq ▸ howner.1)
    · exact howner.1
  · intro pid' r' hr'
    rw [release_pidHash] at hr'
    split at hr'
    · contradiction
    · next hne =>
      have howner := h.pidHash pid' r' hr'
      have hne' := hother pid' r' hr' hne
      rw [release_heap, if_neg hne', release_cmdHash, if_neg]
      · exact howner
      · intro heq
        exact hne' (Option.some.inj (howner.2.symm.trans (heq ▸ hcmd)))
  · intro command r' pid' hr' hpid'
    rw [release_heap] at hpid'
    split at hpid'
    · exact absurd (hrel.pid.symm.trans hpid') nofun
    · next hne =>
      have hheld := h.pid command r' pid' (hlive command r' hr') hpid'
      rw [release_pidHash, if_neg]
      · exact hheld
      · rintro rfl
        exact hne (Option.some.inj (hheld.symm.trans hrel.held))
  · intro pid' command hchild
    have hne : pid' ≠ pid := by
      rintro rfl
      exact absurd (hrel.ended.symm.trans hchild) nofun
    obtain ⟨r', hr', hcommand⟩ := h.child pid' command hchild
    refine ⟨r', ?_, ?_⟩
    · rwa [release_pidHash, if_neg hne]
    · rwa [release_heap, if_neg (hother pid' r' hr' hne)]
  · intro pid' r' hr'
    rw [release_pidHash] at hr'
    rw [release_pidsToReap]
    split at hr'
    · contradiction
    · next hne =>
      rw [if_neg hne]
      exact h.alive pid' r' hr'
  · intro pid' stopped hreap
    rw [release_pidsToReap] at hreap
    split at hreap
    · contradiction
    · exact h.waited pid' stopped hreap

theorem Sound.release (h : Sound c s) (hrel : Released s pid r process entry)
    (hpolicy : entry = some r → Policy c process false s.signals) :
    Sound c (s.release pid r process entry) where
  linked := h.linked.release hrel
  policy command r' hr' := by
    rw [release_heap, release_terminating]
    rw [release_cmdHash] at hr'
    split at hr'
    · next heq =>
      obtain rfl : r' = r := by
        rcases hrel.entry with hnone | hsome
        · exact absurd (hnone.symm.trans hr') nofun
        · exact Option.some.inj (hr'.symm.trans hsome)
      rw [if_pos rfl, if_pos heq]
      exact hpolicy hr'
    · next hne =>
      have hcmd := (h.linked.pidHash pid r hrel.held).2
      rw [← hrel.command] at hcmd
      rw [if_neg (h.linked.ne hcmd hr' hne), if_neg hne]
      exact h.policy command r' hr'
  terminating command hnone := by
    rw [release_cmdHash] at hnone
    rw [release_terminating]
    split
    · rfl
    · next hne => exact h.terminating command ((if_neg hne).symm.trans hnone)

theorem release_wanted (h : Linked s) (hrel : Released s pid r process entry) :
    Wanted (s.release pid r process entry) command ↔
      if command = process.command then entry = some r ∧ process.keepalive = true
      else Wanted s command := by
  have hcmd := (h.pidHash pid r hrel.held).2
  rw [← hrel.command] at hcmd
  unfold Wanted
  simp only [release_cmdHash, release_heap]
  constructor
  · rintro ⟨r', hr', hkeep⟩
    split at hr'
    · next heq =>
      rcases hrel.entry with hnone | hsome
      · exact absurd (hnone.symm.trans hr') nofun
      · obtain rfl := Option.some.inj (hr'.symm.trans hsome)
        rw [if_pos rfl] at hkeep
        rw [if_pos heq]
        exact ⟨hsome, hkeep⟩
    · next hne =>
      rw [if_neg (h.ne hcmd hr' hne)] at hkeep
      rw [if_neg hne]
      exact ⟨r', hr', hkeep⟩
  · intro hwanted
    split at hwanted
    · next heq =>
      exact ⟨r, by rw [if_pos heq]; exact hwanted.1, by rw [if_pos rfl]; exact hwanted.2⟩
    · next hne =>
      obtain ⟨r', hr', hkeep⟩ := hwanted
      exact ⟨r', by rwa [if_neg hne], by rwa [if_neg (h.ne hcmd hr' hne)]⟩

end

theorem Waits.policy {signals : Pid → List Signal} (h : Waits c process)
    (hpid : process.pid = none) (hdaemon : daemonPatt c process.daemon = true)
    (hcommand : commandOf process.daemon process.args = process.command)
    (hdelay : 0 ≤ process.delay ∧ process.delay ≤ max 5 (c.maxRestartDelay : ℤ)) :
    Policy c process false signals := by
  refine ⟨hdaemon, hcommand, hdelay, fun _ ↦ ⟨h, rfl⟩, fun hne ↦ absurd hpid hne, ?_, ?_⟩
  · rintro (hfinal | hterminating)
    · exact absurd (hfinal.symm.trans h.keepalive) nofun
    · contradiction
  · exact fun hfinal ↦ absurd (hfinal.symm.trans h.keepalive) nofun

theorem schedule_keepalive : (Server.schedule c process).keepalive = process.keepalive := by
  unfold Server.schedule
  split <;> rfl

theorem schedule_command : (Server.schedule c process).command = process.command := by
  unfold Server.schedule
  split <;> rfl

theorem schedule_pid : (Server.schedule c process).pid = process.pid := by
  unfold Server.schedule
  split <;> rfl

theorem schedule_policy {signals : Pid → List Signal} (hkeep : process.keepalive = true)
    (hpid : process.pid = none) (hstopped : 0 < process.stopped)
    (hdaemon : daemonPatt c process.daemon = true)
    (hcommand : commandOf process.daemon process.args = process.command)
    (hdelay : 0 ≤ process.delay ∧ process.delay ≤ max 5 (c.maxRestartDelay : ℤ)) :
    Policy c (Server.schedule c process) false signals := by
  unfold Server.schedule
  split
  · refine Waits.policy ⟨hstopped, ?_, hkeep⟩ hpid hdaemon hcommand ?_
    · dsimp only
      omega
    · dsimp only
      omega
  · refine Waits.policy ⟨?_, ?_, hkeep⟩ hpid hdaemon hcommand ?_
    · dsimp only
      omega
    · dsimp only
      omega
    · dsimp only
      omega

/-- The record of a process whose end is seen. -/
def ended (process : Process) (stopped : ℤ) : Process :=
  { process with
    termSentAt := 0
    stopped := stopped
    runtime := stopped - process.started
    pid := none }

theorem reap_held {stopped : ℤ} (hheld : s.pidHash pid = some r) : s.reap c pid stopped =
    if (s.heap r).keepalive then
      s.release pid r (Server.schedule c (ended (s.heap r) stopped)) (some r)
    else s.release pid r (ended (s.heap r) stopped) none := by
  unfold Server.reap Server.release
  dsimp only
  rw [hheld, schedule_command]
  rfl

theorem reap_free {stopped : ℤ} (hheld : s.pidHash pid = none) : s.reap c pid stopped =
    { s with pidsToReap := update s.pidsToReap pid none } := by
  unfold Server.reap
  dsimp only
  rw [hheld]
  dsimp only
  rw [← hheld, update_eq_self]

theorem released (h : Sound c s) {stopped : ℤ} (hreap : s.pidsToReap pid = some stopped)
    (hheld : s.pidHash pid = some r) :
    if (s.heap r).keepalive then
      Released s pid r (Server.schedule c (ended (s.heap r) stopped)) (some r)
    else Released s pid r (ended (s.heap r) stopped) none := by
  have hended := (h.linked.waited pid stopped hreap).1
  split
  · exact ⟨hheld, hended, schedule_command, schedule_pid, .inr rfl⟩
  · exact ⟨hheld, hended, rfl, rfl, .inl rfl⟩

theorem Sound.reap (h : Sound c s) {stopped : ℤ} (hreap : s.pidsToReap pid = some stopped) :
    Sound c (s.reap c pid stopped) := by
  cases hheld : s.pidHash pid with
  | none =>
    rw [reap_free hheld]
    have hlive (pid' : Pid) (stopped' : ℤ)
        (hreap' : update s.pidsToReap pid none pid' = some stopped') :
        s.pidsToReap pid' = some stopped' := by
      rw [update_apply] at hreap'
      split at hreap'
      · contradiction
      · exact hreap'
    refine ⟨{ h.linked with alive := fun pid' r hr ↦ ?_, waited := fun pid' stopped' hreap' ↦ ?_ },
      h.policy, h.terminating⟩
    · have hne : pid' ≠ pid := by
        rintro rfl
        exact absurd (hheld.symm.trans hr) nofun
      exact (h.linked.alive pid' r hr).imp_right ((update_of_ne hne _ _).trans_ne ·)
    · exact h.linked.waited pid' stopped' (hlive pid' stopped' hreap')
  | some r =>
    obtain ⟨hpid, hcmd⟩ := h.linked.pidHash pid r hheld
    have hpolicy := h.policy _ r hcmd
    have hrel := released h hreap hheld
    rw [reap_held hheld]
    split
    · next hkeep =>
      rw [if_pos hkeep] at hrel
      refine h.release hrel fun _ ↦ ?_
      exact schedule_policy hkeep rfl (h.linked.waited pid stopped hreap).2 hpolicy.daemon
        hpolicy.command hpolicy.delay
    · next hfinal =>
      rw [if_neg hfinal] at hrel
      exact h.release hrel nofun

/-- What is kept alive stays so when its end is seen. -/
theorem reap_wanted (h : Sound c s) {stopped : ℤ} (hreap : s.pidsToReap pid = some stopped) :
    Wanted (s.reap c pid stopped) command ↔ Wanted s command := by
  cases hheld : s.pidHash pid with
  | none =>
    rw [reap_free hheld]
    exact Iff.rfl
  | some r =>
    obtain ⟨hpid, hcmd⟩ := h.linked.pidHash pid r hheld
    have hwanted : Wanted s (s.heap r).command ↔ (s.heap r).keepalive = true := by
      constructor
      · rintro ⟨r', hr', hkeep⟩
        rwa [Option.some.inj (hcmd.symm.trans hr')]
      · exact fun hkeep ↦ ⟨r, hcmd, hkeep⟩
    have hrel := released h hreap hheld
    rw [reap_held hheld]
    split
    · next hkeep =>
      rw [if_pos hkeep] at hrel
      rw [release_wanted h.linked hrel, schedule_command, schedule_keepalive]
      split
      · next heq => exact iff_of_true ⟨rfl, hkeep⟩ (heq ▸ hwanted.mpr hkeep)
      · exact Iff.rfl
    · next hfinal =>
      rw [if_neg hfinal] at hrel
      rw [release_wanted h.linked hrel]
      split
      · next heq => exact iff_of_false (fun hnone ↦ nomatch hnone.1) (heq ▸ mt hwanted.mp hfinal)
      · exact Iff.rfl

theorem restartPending_spec (h : Sound c s) (now : ℤ)
    (hcmd : s.cmdHash (s.heap r).command = some r)
    (hfresh : Fresh s child) :
    Sound c (s.restartPending c r now child) ∧ ∀ command,
      Wanted (s.restartPending c r now child) command ↔ Wanted s command := by
  have hpolicy := h.policy _ r hcmd
  unfold Server.restartPending
  split
  · next hdue =>
    have hpid : (s.heap r).pid = none := by
      by_contra hne
      exact hdue.1 (hpolicy.running hne)
    have hwanted : Wanted s (s.heap r).command := ⟨r, hcmd, (hpolicy.waiting hpid).1.keepalive⟩
    obtain ⟨hsound, hstart⟩ := start_spec h (s.heap r).args now hpolicy.daemon hfresh
    refine ⟨hsound, fun command ↦ (hstart command).trans ?_⟩
    rw [hpolicy.command]
    refine or_iff_right_of_imp ?_
    rintro rfl
    exact hwanted
  · exact ⟨h, fun command ↦ Iff.rfl⟩

/-- One round of the loop in which shutdownAll stops what pid_hash holds. -/
def Server.stopHeld (now : ℤ) (s : Server) (pid : Pid) : Server :=
  match s.pidHash pid with
  | none => s
  | some r => (s.sendStop true r now).2

theorem stopHeld_spec (h : Sound c s) (hnow : 0 < now) (pid : Pid) :
    Sound c (s.stopHeld now pid) ∧ (s.stopHeld now pid).pidHash = s.pidHash ∧
      (s.stopHeld now pid).shuttingDown = s.shuttingDown ∧
      ∀ r, ((s.stopHeld now pid).heap r).keepalive = true →
        (s.heap r).keepalive = true ∧ s.pidHash pid ≠ some r := by
  unfold Server.stopHeld
  cases hheld : s.pidHash pid with
  | none => exact ⟨h, rfl, rfl, fun r hkeep ↦ ⟨hkeep, nofun⟩⟩
  | some r =>
    dsimp only
    rw [sendStop_held h hheld]
    refine ⟨stopped_sound h hheld true hnow, rfl, rfl, fun r' hkeep ↦ ?_⟩
    rw [put_heap] at hkeep
    split at hkeep
    · contradiction
    · next hne => exact ⟨hkeep, fun heq ↦ hne (Option.some.inj heq).symm⟩

theorem stopHeld_all (h : Sound c s) (hnow : 0 < now) (pids : List Pid) :
    Sound c (pids.foldl (Server.stopHeld now) s) ∧
      (pids.foldl (Server.stopHeld now) s).pidHash = s.pidHash ∧
      (pids.foldl (Server.stopHeld now) s).shuttingDown = s.shuttingDown ∧
      ∀ r, ((pids.foldl (Server.stopHeld now) s).heap r).keepalive = true →
        (s.heap r).keepalive = true ∧ ∀ pid ∈ pids, s.pidHash pid ≠ some r := by
  induction pids generalizing s with
  | nil => exact ⟨h, rfl, rfl, fun r hkeep ↦ ⟨hkeep, List.forall_mem_nil _⟩⟩
  | cons pid pids ih =>
    obtain ⟨hsound, hsame, hdown, hkept⟩ := stopHeld_spec h hnow pid
    obtain ⟨hsound', hsame', hdown', hkept'⟩ := ih hsound
    refine ⟨hsound', hsame'.trans hsame, hdown'.trans hdown, fun r hkeep ↦ ?_⟩
    obtain ⟨hkeep', hlater⟩ := hkept' r hkeep
    obtain ⟨hkeep'', hfirst⟩ := hkept r hkeep'
    rw [hsame] at hlater
    exact ⟨hkeep'', List.forall_mem_cons.mpr ⟨hfirst, hlater⟩⟩

/-- The server has told whatever it holds to stop for good. -/
def Stopping (s : Server) : Prop :=
  ∀ command r pid, s.cmdHash command = some r → (s.heap r).pid = some pid →
    (s.heap r).keepalive = false

theorem shutdownAll_spec (h : Sound c s) (hnow : 0 < now) {pids : List Pid}
    (hpids : ∀ pid, s.pidHash pid ≠ none → pid ∈ pids) :
    Sound c (s.shutdownAll pids now) ∧ (s.shutdownAll pids now).shuttingDown = true ∧
      Stopping (s.shutdownAll pids now) := by
  have hdown : Sound c { s with shuttingDown := true } :=
    ⟨{ h.linked with }, h.policy, h.terminating⟩
  obtain ⟨hsound, hsame, hflag, hkept⟩ := stopHeld_all hdown hnow pids
  refine ⟨hsound, hflag, fun command r pid hcmd hpid ↦ ?_⟩
  have hheld : s.pidHash pid = some r := hsame ▸ hsound.linked.pid command r pid hcmd hpid
  rw [← Bool.not_eq_true]
  intro hkeep
  refine (hkept r hkeep).2 pid (hpids pid ?_) hheld
  rw [hheld]
  exact Option.some_ne_none _

theorem Stopping.reap (h : Stopping s) (hsound : Sound c s) {stopped : ℤ}
    (hreap : s.pidsToReap pid = some stopped) : Stopping (s.reap c pid stopped) := by
  cases hheld : s.pidHash pid with
  | none =>
    rw [reap_free hheld]
    exact h
  | some r =>
    have hstopped (process : Process) (entry : Option Ref) (hrel : Released s pid r process entry) :
        Stopping (s.release pid r process entry) := by
      intro command r' pid' hcmd hpid
      rw [release_heap] at hpid ⊢
      split at hpid
      · exact absurd (hrel.pid.symm.trans hpid) nofun
      · next hne =>
        rw [if_neg hne]
        rw [release_cmdHash] at hcmd
        split at hcmd
        · rcases hrel.entry with hnone | hsome
          · exact absurd (hnone.symm.trans hcmd) nofun
          · exact absurd (Option.some.inj (hcmd.symm.trans hsome)) hne
        · exact h command r' pid' hcmd hpid
    have hrel := released hsound hreap hheld
    rw [reap_held hheld]
    split
    · next hkeep =>
      rw [if_pos hkeep] at hrel
      exact hstopped _ _ hrel
    · next hfinal =>
      rw [if_neg hfinal] at hrel
      exact hstopped _ _ hrel

end ZoneMinder.Zmdc
