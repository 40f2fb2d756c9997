import ZoneMinder.Zmdc.Server

namespace ZoneMinder.Zmdc

open Function Lib

variable {c : Settings} {s t : Server} {r : Ref} {process : Process} {pid child : Pid}
  {command : Text} {now : ℤ}

/-- The hashes agree on the records and the children. -/
structure Linked (s : Server) : Prop where
  cmdHash : ∀ command r, s.cmdHash command = some r →
    (s.heap r).command = command ∧ r < s.nextRef
  pidHash : ∀ pid r, s.pidHash pid = some r →
    (s.heap r).pid = some pid ∧ s.cmdHash (s.heap r).command = some r
  pid : ∀ command r pid, s.cmdHash command = some r → (s.heap r).pid = some pid →
    s.pidHash pid = some r
  child : ∀ pid command, s.children pid = some command →
    ∃ r, s.pidHash pid = some r ∧ (s.heap r).command = command
  alive : ∀ pid r, s.pidHash pid = some r → s.children pid ≠ none ∨ s.pidsToReap pid ≠ none
  waited : ∀ pid stopped, s.pidsToReap pid = some stopped → s.children pid = none ∧ 0 < stopped

/-- A process that waits to be started again. -/
structure Waits (c : Settings) (process : Process) : Prop where
  pending : 0 < process.pending
  soon : process.pending ≤ process.stopped + max 5 (c.maxRestartDelay : ℤ)
  keepalive : process.keepalive = true

/-- What is done about a process is what was asked for. -/
structure Policy (c : Settings) (process : Process) (terminating : Bool)
    (signals : Pid → List Signal) : Prop where
  daemon : daemonPatt c process.daemon = true
  command : commandOf process.daemon process.args = process.command
  delay : 0 ≤ process.delay ∧ process.delay ≤ max 5 (c.maxRestartDelay : ℤ)
  waiting : process.pid = none → Waits c process ∧ terminating = false
  running : process.pid ≠ none → process.pending = 0
  told : process.keepalive = false ∨ terminating = true → process.termSentAt ≠ 0
  stopping : process.keepalive = false → ∀ pid, process.pid = some pid →
    .term ∈ signals pid ∧ (terminating = true ∨ .kill ∈ signals pid)

structure Sound (c : Settings) (s : Server) : Prop where
  linked : Linked s
  policy : ∀ command r, s.cmdHash command = some r →
    Policy c (s.heap r) (s.terminatingProcesses command) s.signals
  terminating : ∀ command, s.cmdHash command = none → s.terminatingProcesses command = false

/-- The command is to be kept running. -/
def Wanted (s : Server) (command : Text) : Prop :=
  ∃ r, s.cmdHash command = some r ∧ (s.heap r).keepalive = true

/-- A pid that the server does not know. -/
structure Fresh (s : Server) (pid : Pid) : Prop where
  pidHash : s.pidHash pid = none
  children : s.children pid = none
  pidsToReap : s.pidsToReap pid = none

theorem Linked.inj (h : Linked s) {command' : Text} (hr : s.cmdHash command = some r)
    (hr' : s.cmdHash command' = some r) : command = command' :=
  (h.cmdHash _ _ hr).1.symm.trans (h.cmdHash _ _ hr').1

theorem Policy.mono {signals signals' : Pid → List Signal} {terminating : Bool}
    (h : Policy c process terminating signals)
    (hsignals : ∀ pid, process.pid = some pid → signals pid ⊆ signals' pid) :
    Policy c process terminating signals' :=
  { h with
    stopping := fun hfinal pid hpid ↦
      have hstopping := h.stopping hfinal pid hpid
      ⟨hsignals pid hpid hstopping.1, hstopping.2.imp_right (hsignals pid hpid ·)⟩ }

theorem kill_signals (signal : Signal) (pid pid' : Pid) (s : Server) :
    (s.kill signal pid).signals pid' =
      if pid' = pid then s.signals pid ++ [signal] else s.signals pid' := update_apply _ _ _ _

theorem subset_kill (signal : Signal) (pid pid' : Pid) (s : Server) :
    s.signals pid' ⊆ (s.kill signal pid).signals pid' := by
  rw [kill_signals]
  split
  · next heq => exact heq ▸ List.subset_append_left _ _
  · exact List.Subset.refl _

theorem mem_kill (signal : Signal) (pid : Pid) (s : Server) :
    signal ∈ (s.kill signal pid).signals pid := by
  rw [kill_signals, if_pos rfl]
  exact List.mem_append_right _ (List.mem_singleton_self _)

theorem Sound.kill (h : Sound c s) (signal : Signal) (pid : Pid) : Sound c (s.kill signal pid) where
  linked := { h.linked with }
  policy command r hr := (h.policy command r hr).mono fun pid' _ ↦ subset_kill signal pid pid' s
  terminating := h.terminating

/-- A record that is changed where it stands. -/
def Server.put (r : Ref) (process : Process) (terminating : Bool) (s : Server) : Server :=
  { s with
    heap := update s.heap r process
    terminatingProcesses := update s.terminatingProcesses process.command terminating }

theorem put_heap {terminating : Bool} (r' : Ref) :
    (s.put r process terminating).heap r' = if r' = r then process else s.heap r' :=
  update_apply _ _ _ _

theorem put_terminating {terminating : Bool} (command : Text) :
    (s.put r process terminating).terminatingProcesses command =
      if command = process.command then terminating else s.terminatingProcesses command :=
  update_apply _ _ _ _

/-- The other records of cmd_hash are other ones. -/
theorem Linked.ne (h : Linked s) {r' : Ref} {command' : Text} (hr : s.cmdHash command = some r)
    (hr' : s.cmdHash command' = some r') (hne : command' ≠ command) : r' ≠ r := by
  rintro rfl
  exact hne (h.inj hr' hr)

theorem Linked.put (h : Linked s) {terminating : Bool}
    (hcommand : process.command = (s.heap r).command) (hpid : process.pid = (s.heap r).pid) :
    Linked (s.put r process terminating) := by
  have hsame (r' : Ref) : ((s.put r process terminating).heap r').command = (s.heap r').command ∧
      ((s.put r process terminating).heap r').pid = (s.heap r').pid := by
    rw [put_heap]
    split
    · next heq => exact heq ▸ ⟨hcommand, hpid⟩
    · exact ⟨rfl, rfl⟩
  constructor
  · intro command r' hr'
    rw [(hsame r').1]
    exact h.cmdHash command r' hr'
  · intro pid r' hr'
    rw [(hsame r').1, (hsame r').2]
    exact h.pidHash pid r' hr'
  · intro command r' pid hr' hpid'
    rw [(hsame r').2] at hpid'
    exact h.pid command r' pid hr' hpid'
  · intro pid command hchild
    obtain ⟨r', hr', hcommand'⟩ := h.child pid command hchild
    exact ⟨r', hr', (hsame r').1.trans hcommand'⟩
  · exact h.alive
  · exact h.waited

theorem Sound.put (h : Sound c s) (process : Process) (terminating : Bool)
    (hr : s.cmdHash process.command = some r) (hpid : process.pid = (s.heap r).pid)
    (hpolicy : Policy c process terminating s.signals) : Sound c (s.put r process terminating) where
  linked := h.linked.put (h.linked.cmdHash _ _ hr).1.symm hpid
  policy command r' hr' := by
    rw [put_heap, put_terminating]
    by_cases heq : command = process.command
    · obtain rfl := Option.some.inj (hr'.symm.trans (heq ▸ hr))
      rw [if_pos rfl, if_pos heq]
      exact hpolicy
    · rw [if_neg (h.linked.ne hr hr' heq), if_neg heq]
      exact h.policy command r' hr'
  terminating command hnone := by
    have hne : command ≠ process.command := by
      rintro rfl
      exact Option.some_ne_none _ (hr.symm.trans hnone)
    rw [put_terminating, if_neg hne]
    exact h.terminating command hnone

theorem put_wanted (h : Linked s) (process : Process) (terminating : Bool)
    (hr : s.cmdHash process.command = some r) (command : Text) :
    Wanted (s.put r process terminating) command ↔
      if command = process.command then process.keepalive = true else Wanted s command := by
  unfold Wanted
  simp only [put_heap]
  constructor
  · rintro ⟨r', hr', hkeep⟩
    split
    · next heq =>
      obtain rfl := Option.some.inj (hr'.symm.trans (heq ▸ hr))
      rwa [if_pos rfl] at hkeep
    · next hne =>
      rw [if_neg (h.ne hr hr' hne)] at hkeep
      exact ⟨r', hr', hkeep⟩
  · intro hkeep
    split at hkeep
    · next heq => exact ⟨r, heq ▸ hr, by rwa [if_pos rfl]⟩
    · next hne =>
      obtain ⟨r', hr', hkeep⟩ := hkeep
      exact ⟨r', hr', by rwa [if_neg (h.ne hr hr' hne)]⟩

section

variable (s r now child)

theorem forked_heap (r' : Ref) : (s.forked r now child).heap r' =
    if r' = r then { s.heap r with pid := some child, started := now, pending := 0 }
    else s.heap r' := update_apply _ _ _ _

theorem forked_cmdHash (command : Text) : (s.forked r now child).cmdHash command =
    if command = (s.heap r).command then some r else s.cmdHash command := update_apply _ _ _ _

theorem forked_pidHash (pid : Pid) : (s.forked r now child).pidHash pid =
    if pid = child then some r else s.pidHash pid := update_apply _ _ _ _

theorem forked_children (pid : Pid) : (s.forked r now child).children pid =
    if pid = child then some (s.heap r).command else s.children pid := update_apply _ _ _ _

theorem forked_signals (pid : Pid) : (s.forked r now child).signals pid =
    if pid = child then [] else s.signals pid := update_apply _ _ _ _

end

/-- A record that start may fork for. -/
structure Startable (c : Settings) (s : Server) (r : Ref) : Prop where
  lt : r < s.nextRef
  own : ∀ r', s.cmdHash (s.heap r).command = some r' → r' = r
  pid : (s.heap r).pid = none
  keepalive : (s.heap r).keepalive = true
  daemon : daemonPatt c (s.heap r).daemon = true
  command : commandOf (s.heap r).daemon (s.heap r).args = (s.heap r).command
  delay : 0 ≤ (s.heap r).delay ∧ (s.heap r).delay ≤ max 5 (c.maxRestartDelay : ℤ)
  terminating : s.terminatingProcesses (s.heap r).command = false

theorem Linked.forked (h : Linked s) (hfresh : Fresh s child) (hr : Startable c s r) :
    Linked (s.forked r now child) := by
  have hheld (pid : Pid) (r' : Ref) (hr' : s.pidHash pid = some r') : r' ≠ r := by
    rintro rfl
    have hpid := (h.pidHash pid r' hr').1
    rw [hr.pid] at hpid
    contradiction
  have hfree (pid : Pid) (r' : Ref) (hr' : s.pidHash pid = some r') : pid ≠ child := by
    rintro rfl
    exact Option.some_ne_none _ (hr'.symm.trans hfresh.pidHash)
  have hother (command : Text) (r' : Ref) (hr' : s.cmdHash command = some r')
      (hne : command ≠ (s.heap r).command) : r' ≠ r := by
    rintro rfl
    exact hne (h.cmdHash command r' hr').1.symm
  constructor
  · intro command r' hr'
    rw [forked_cmdHash] at hr'
    rw [forked_heap]
    split at hr'
    · next heq =>
      obtain rfl := Option.some.inj hr'
      rw [if_pos rfl]
      exact ⟨heq.symm, hr.lt⟩
    · next hne =>
      rw [if_neg (hother command r' hr' hne)]
      exact h.cmdHash command r' hr'
  · intro pid r' hr'
    rw [forked_pidHash] at hr'
    rw [forked_heap, forked_cmdHash]
    split at hr'
    · next heq =>
      obtain rfl := Option.some.inj hr'
      rw [if_pos rfl, if_pos rfl]
      exact ⟨congrArg some heq.symm, rfl⟩
    · have howner := h.pidHash pid r' hr'
      rw [if_neg (hheld pid r' hr')]
      refine ⟨howner.1, (if_neg ?_).trans howner.2⟩
      intro heq
      exact hheld pid r' hr' (hr.own r' (heq ▸ howner.2))
  · intro command r' pid hr' hpid
    rw [forked_cmdHash] at hr'
    rw [forked_heap] at hpid
    rw [forked_pidHash]
    split at hr'
    · obtain rfl := Option.some.inj hr'
      rw [if_pos rfl] at hpid
      rw [if_pos (Option.some.inj hpid).symm]
    · next hne =>
      rw [if_neg (hother command r' hr' hne)] at hpid
      have hheld' := h.pid command r' pid hr' hpid
      rwa [if_neg (hfree pid r' hheld')]
  · intro pid command hchild
    rw [forked_children] at hchild
    simp only [forked_pidHash, forked_heap]
    split at hchild
    · next heq =>
      exact ⟨r, if_pos heq, by rw [if_pos rfl]; exact Option.some.inj hchild⟩
    · next hne =>
      obtain ⟨r', hr', hcommand⟩ := h.child pid command hchild
      exact ⟨r', (if_neg hne).trans hr', by rwa [if_neg (hheld pid r' hr')]⟩
  · intro pid r' hr'
    rw [forked_pidHash] at hr'
    rw [forked_children]
    split at hr'
    · next heq => exact .inl (by rw [if_pos heq]; exact Option.some_ne_none _)
    · next hne =>
      rw [if_neg hne]
      exact h.alive pid r' hr'
  · intro pid stopped hreap
    have hne : pid ≠ child := by
      rintro rfl
      exact Option.some_ne_none _ (hreap.symm.trans hfresh.pidsToReap)
    rw [forked_children, if_neg hne]
    exact h.waited pid stopped hreap

theorem Sound.forked (h : Sound c s) (hfresh : Fresh s child) (hr : Startable c s r) :
    Sound c (s.forked r now child) where
  linked := h.linked.forked hfresh hr
  policy command r' hr' := by
    rw [forked_cmdHash] at hr'
    rw [forked_heap]
    change Policy c _ (s.terminatingProcesses command) _
    split at hr'
    · next heq =>
      obtain rfl := Option.some.inj hr'
      rw [if_pos rfl, heq, hr.terminating]
      refine ⟨hr.daemon, hr.command, hr.delay, nofun, fun _ ↦ rfl, ?_, ?_⟩
      · rintro (hfinal | hterminating)
        · exact absurd (hfinal.symm.trans hr.keepalive) nofun
        · contradiction
      · intro hfinal
        exact absurd (hfinal.symm.trans hr.keepalive) nofun
    · next hne =>
      have hpolicy := h.policy command r' hr'
      have hother : r' ≠ r := by
        rintro rfl
        exact hne (h.linked.cmdHash command r' hr').1.symm
      rw [if_neg hother]
      refine hpolicy.mono fun pid hpid ↦ ?_
      have hheld := h.linked.pid command r' pid hr' hpid
      rw [forked_signals, if_neg]
      · exact List.Subset.refl _
      · rintro rfl
        exact Option.some_ne_none _ (hheld.symm.trans hfresh.pidHash)
  terminating command hnone := by
    rw [forked_cmdHash] at hnone
    split at hnone
    · contradiction
    · exact h.terminating command hnone

theorem forked_wanted (h : Linked s) (hr : Startable c s r) :
    Wanted (s.forked r now child) command ↔
      command = (s.heap r).command ∨ Wanted s command := by
  unfold Wanted
  simp only [forked_cmdHash, forked_heap]
  constructor
  · rintro ⟨r', hr', hkeep⟩
    split at hr'
    · next heq => exact .inl heq
    · next hne =>
      rw [if_neg] at hkeep
      · exact .inr ⟨r', hr', hkeep⟩
      · rintro rfl
        exact hne (h.cmdHash command r' hr').1.symm
  · rintro (rfl | ⟨r', hr', hkeep⟩)
    · exact ⟨r, if_pos rfl, by rw [if_pos rfl]; exact hr.keepalive⟩
    · split
      · exact ⟨r, rfl, by rw [if_pos rfl]; exact hr.keepalive⟩
      · next hne =>
        refine ⟨r', hr', ?_⟩
        rw [if_neg]
        · exact hkeep
        · rintro rfl
          exact hne (h.cmdHash command r' hr').1.symm

theorem alloc_heap (r' : Ref) : (s.alloc process).2.heap r' =
    if r' = s.nextRef then process else s.heap r' := update_apply _ _ _ _

/-- Nothing holds a new record. -/
theorem Sound.alloc (h : Sound c s) (process : Process) : Sound c (s.alloc process).2 := by
  have hheap (command : Text) (r : Ref) (hr : s.cmdHash command = some r) :
      (s.alloc process).2.heap r = s.heap r := by
    rw [alloc_heap, if_neg (h.linked.cmdHash command r hr).2.ne]
  constructor
  · constructor
    · intro command r hr
      rw [hheap command r hr]
      have hcommand := h.linked.cmdHash command r hr
      exact ⟨hcommand.1, Nat.lt_succ_of_lt hcommand.2⟩
    · intro pid r hr
      have howner := h.linked.pidHash pid r hr
      rw [hheap _ r howner.2]
      exact howner
    · intro command r pid hr hpid
      rw [hheap command r hr] at hpid
      exact h.linked.pid command r pid hr hpid
    · intro pid command hchild
      obtain ⟨r, hr, hcommand⟩ := h.linked.child pid command hchild
      refine ⟨r, hr, ?_⟩
      rwa [hheap _ r (h.linked.pidHash pid r hr).2]
    · exact h.linked.alive
    · exact h.linked.waited
  · intro command r hr
    rw [hheap command r hr]
    exact h.policy command r hr
  · exact h.terminating

theorem alloc_wanted (h : Sound c s) :
    Wanted (s.alloc process).2 command ↔ Wanted s command := by
  refine exists_congr fun r ↦ and_congr_right fun hr ↦ ?_
  rw [alloc_heap, if_neg (h.linked.cmdHash command r hr).2.ne]

theorem start_spec (h : Sound c s) {daemon : Text} (args : List Text) (now : ℤ)
    (hdaemon : daemonPatt c daemon = true) (hfresh : Fresh s child) :
    Sound c (s.start c daemon args now child) ∧ ∀ command,
      Wanted (s.start c daemon args now child) command ↔
        command = commandOf daemon args ∨ Wanted s command := by
  unfold Server.start
  rw [if_neg (by rw [hdaemon]; exact Bool.false_ne_true.symm)]
  dsimp only
  cases hcmd : s.cmdHash (commandOf daemon args) with
  | none =>
    have hsound := h.alloc (newProcess daemon args)
    have hnew : (s.alloc (newProcess daemon args)).2.heap s.nextRef = newProcess daemon args := by
      rw [alloc_heap, if_pos rfl]
    have hstart : Startable c (s.alloc (newProcess daemon args)).2 s.nextRef := by
      constructor
      · exact Nat.lt_succ_self _
      · intro r' hr'
        rw [hnew] at hr'
        exact absurd (hcmd.symm.trans hr') nofun
      · rw [hnew]
        rfl
      · rw [hnew]
        rfl
      · rw [hnew]
        exact hdaemon
      · rw [hnew]
        rfl
      · rw [hnew]
        change (0 : ℤ) ≤ 0 ∧ (0 : ℤ) ≤ max 5 (c.maxRestartDelay : ℤ)
        omega
      · rw [hnew]
        exact h.terminating _ hcmd
    refine ⟨hsound.forked ⟨hfresh.1, hfresh.2, hfresh.3⟩ hstart, fun command ↦ ?_⟩
    exact (forked_wanted hsound.linked hstart).trans
      (or_congr (by rw [hnew]; exact Iff.rfl) (alloc_wanted h))
  | some r =>
    obtain ⟨hcommand, hlt⟩ := h.linked.cmdHash _ r hcmd
    have hpolicy := h.policy _ r hcmd
    rw [← hcommand] at hcmd hpolicy ⊢
    dsimp only
    cases hpid : (s.heap r).pid with
    | none =>
      obtain ⟨hwaits, hterminating⟩ := hpolicy.waiting hpid
      have hstart : Startable c s r :=
        ⟨hlt, fun r' hr' ↦ Option.some.inj (hr'.symm.trans hcmd), hpid, hwaits.keepalive,
          hpolicy.daemon, hpolicy.command, hpolicy.delay, hterminating⟩
      rw [Option.bind_none, if_neg (by decide)]
      exact ⟨h.forked hfresh hstart, fun command ↦ forked_wanted h.linked hstart⟩
    | some pid =>
      rw [Option.bind_some, h.linked.pid _ r pid hcmd hpid, if_pos Option.isSome_some]
      split
      · rw [← hpid]
        have hpolicy' :
            Policy c { s.heap r with keepalive := true, delay := 0 } false s.signals := by
          refine ⟨hpolicy.daemon, hpolicy.command, ?_, fun hnone ↦ ?_, hpolicy.running, ?_, nofun⟩
          · change (0 : ℤ) ≤ 0 ∧ (0 : ℤ) ≤ max 5 (c.maxRestartDelay : ℤ)
            omega
          · exact absurd (hpid.symm.trans hnone) nofun
          · rintro (hfinal | hterminating) <;> contradiction
        refine ⟨h.put _ _ hcmd rfl hpolicy', fun command ↦ (put_wanted h.linked
          { s.heap r with keepalive := true, delay := 0 } false hcmd command).trans ?_⟩
        split
        · next heq => exact iff_of_true rfl (.inl heq)
        · next hne => exact (or_iff_right hne).symm
      · next htold =>
        have hkeep : (s.heap r).keepalive = true := by
          by_contra hfinal
          exact htold (hpolicy.told (.inl (Bool.eq_false_iff.mpr hfinal)))
        refine ⟨h, fun command ↦ ⟨.inr, ?_⟩⟩
        rintro (rfl | hwanted)
        · exact ⟨r, hcmd, hkeep⟩
        · exact hwanted

theorem drop_spec (h : Sound c s) (hcmd : s.cmdHash (s.heap r).command = some r)
    (hpending : (s.heap r).pending ≠ 0) :
    Sound c { s with cmdHash := update s.cmdHash (s.heap r).command none } := by
  have hpolicy := h.policy _ r hcmd
  have hpid : (s.heap r).pid = none := by
    by_contra hne
    exact hpending (hpolicy.running hne)
  have hlive (command : Text) (r' : Ref)
      (hr' : update s.cmdHash (s.heap r).command none command = some r') :
      s.cmdHash command = some r' := by
    rw [update_apply] at hr'
    split at hr'
    · contradiction
    · exact hr'
  constructor
  · constructor
    · exact fun command r' hr' ↦ h.linked.cmdHash command r' (hlive command r' hr')
    · intro pid r' hr'
      have howner := h.linked.pidHash pid r' hr'
      refine ⟨howner.1, (update_of_ne ?_ _ _).trans howner.2⟩
      intro heq
      obtain rfl := Option.some.inj ((heq ▸ howner.2).symm.trans hcmd)
      exact absurd (howner.1.symm.trans hpid) nofun
    · exact fun command r' pid hr' ↦ h.linked.pid command r' pid (hlive command r' hr')
    · exact h.linked.child
    · exact h.linked.alive
    · exact h.linked.waited
  · exact fun command r' hr' ↦ h.policy command r' (hlive command r' hr')
  · intro command hnone
    by_cases heq : command = (s.heap r).command
    · exact heq ▸ (hpolicy.waiting hpid).2
    · exact h.terminating command ((update_of_ne heq _ _).symm.trans hnone)

theorem sendStop_held (h : Sound c s) (hheld : s.pidHash pid = some r) (final : Bool) :
    s.sendStop final r now = (true, (s.kill .term pid).put r
      { s.heap r with keepalive := !final, termSentAt := now, pending := 0 } true) := by
  obtain ⟨hpid, hcmd⟩ := h.linked.pidHash pid r hheld
  have hpending : (s.heap r).pending = 0 :=
    (h.policy _ r hcmd).running (by rw [hpid]; exact Option.some_ne_none _)
  unfold Server.sendStop
  dsimp only
  rw [if_neg (not_not.mpr hpending), hpid]
  dsimp only
  rw [if_neg (by rw [hheld]; exact Option.some_ne_none _)]
  rfl

theorem stopped_sound (h : Sound c s) (hheld : s.pidHash pid = some r) (final : Bool)
    (hnow : 0 < now) : Sound c ((s.kill .term pid).put r
      { s.heap r with keepalive := !final, termSentAt := now, pending := 0 } true) := by
  obtain ⟨hpid, hcmd⟩ := h.linked.pidHash pid r hheld
  have hpolicy := h.policy _ r hcmd
  refine (h.kill .term pid).put _ true hcmd rfl ?_
  refine ⟨hpolicy.daemon, hpolicy.command, hpolicy.delay, fun hnone ↦ ?_, fun _ ↦ rfl,
    fun _ ↦ Int.ne_of_gt hnow, fun _ pid' hpid' ↦ ⟨?_, .inl rfl⟩⟩
  · exact absurd (hpid.symm.trans hnone) nofun
  · obtain rfl := Option.some.inj (hpid.symm.trans hpid')
    exact mem_kill .term pid s

/-- What send_stop does to a process that the server knows. -/
theorem sendStop_spec (h : Sound c s) (hcmd : s.cmdHash command = some r) (final : Bool)
    (hnow : 0 < now) :
    Sound c (s.sendStop final r now).2 ∧
      (∀ command', command' ≠ command →
        (Wanted (s.sendStop final r now).2 command' ↔ Wanted s command')) ∧
      if (s.sendStop final r now).1 then
        (Wanted (s.sendStop final r now).2 command ↔ final = false)
      else (s.sendStop final r now).2.cmdHash command = none := by
  obtain ⟨rfl, -⟩ := h.linked.cmdHash _ r hcmd
  have hpolicy := h.policy _ r hcmd
  cases hpid : (s.heap r).pid with
  | none =>
    have hpending := Int.ne_of_gt (hpolicy.waiting hpid).1.pending
    unfold Server.sendStop
    dsimp only
    rw [if_pos hpending]
    refine ⟨drop_spec h hcmd hpending, fun command' hne ↦ ?_, ?_⟩
    · unfold Wanted
      dsimp only
      rw [update_of_ne hne]
    · dsimp only
      rw [if_neg Bool.false_ne_true, update_self]
  | some pid =>
    have hheld := h.linked.pid _ r pid hcmd hpid
    rw [sendStop_held h hheld]
    have hwanted := put_wanted (h.kill .term pid).linked
      { s.heap r with keepalive := !final, termSentAt := now, pending := 0 } true hcmd
    refine ⟨stopped_sound h hheld final hnow, fun command' hne ↦ ?_, ?_⟩
    · exact (hwanted command').trans (iff_of_eq (if_neg hne))
    · dsimp only
      rw [if_pos rfl]
      refine (hwanted _).trans ?_
      rw [if_pos rfl]
      exact Bool.not_eq_true' final ▸ Iff.rfl

end ZoneMinder.Zmdc
