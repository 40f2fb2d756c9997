import ZoneMinder.Lib.Run
import Mathlib.Algebra.Order.Ring.Int
import Mathlib.Logic.Function.Basic

namespace ZoneMinder.EventLock

open Lib

/-- A row of `Events_Lock`; the table has `EventId` for its primary key. -/
structure Row where
  lockedBy : String
  lockedAt : ℤ
  expiresAt : ℤ
  deriving DecidableEq

def lockOwner (serverId : Option ℕ) (pid : ℕ) : String :=
  toString (serverId.getD 0) ++ "." ++ toString pid

/-- `ZM_FILTER_LOCK_TIMEOUT` for a timeout that is not given, or 3600 where that is not set. -/
def lockTimeout (configured timeout : Option ℤ) : ℤ :=
  timeout.getD (if configured.getD 0 = 0 then 3600 else configured.getD 0)

/-- A lock on an event that its process was told it has. -/
structure Held (π : Type) where
  process : π
  eventId : ℕ
  expiresAt : ℤ
  deriving DecidableEq

inductive Phase
  | idle
  | acquiring (eventId : ℕ) (timeout : ℤ)
  | crashed
  deriving DecidableEq

structure State (π : Type) where
  now : ℤ
  table : ℕ → Option Row
  /-- what no column says: the process whose insertion made the row -/
  insertedBy : ℕ → Option π
  phase : π → Phase
  held : List (Held π)

inductive Op (π : Type)
  | tick (seconds : ℕ)
  | clear (p : π) (eventId : ℕ) (timeout : Option ℤ)
  | insert (p : π)
  | release (p : π) (eventId : ℕ)
  | reap (p : π)
  | crash (p : π)

/-- `DELETE FROM Events_Lock WHERE …` -/
def deleteRows (cond : ℕ → Row → Bool) (table : ℕ → Option Row) : ℕ → Option Row :=
  fun e ↦ (table e).filter (fun r ↦ !cond e r)

theorem deleteRows_eq_some {cond : ℕ → Row → Bool} {table : ℕ → Option Row} {e : ℕ} {r : Row} :
    deleteRows cond table e = some r ↔ table e = some r ∧ cond e r = false := by
  simp [deleteRows, Option.filter_eq_some_iff]

section

variable {π : Type} [DecidableEq π] (owner : π → String) (configured : Option ℤ)

/-- Every statement is one step; `acquire_lock` is the two steps `clear` and `insert`. -/
def step (s : State π) : Op π → Option (State π)
  | .tick seconds => some { s with now := s.now + seconds }
  | .clear p eventId timeout =>
    if s.phase p = .idle then
      some { s with
        table := deleteRows (fun e r ↦ e = eventId ∧ r.expiresAt < s.now) s.table
        phase := Function.update s.phase p (.acquiring eventId (lockTimeout configured timeout)) }
    else none
  | .insert p =>
    match s.phase p with
    | .acquiring eventId timeout =>
      match s.table eventId with
      | some _ => some { s with phase := Function.update s.phase p .idle }
      | none =>
        some { s with
          table :=
            Function.update s.table eventId (some ⟨owner p, s.now, s.now + timeout⟩)
          insertedBy := Function.update s.insertedBy eventId (some p)
          phase := Function.update s.phase p .idle
          held := ⟨p, eventId, s.now + timeout⟩ :: s.held }
    | _ => none
  | .release p eventId =>
    if s.phase p = .idle then
      some { s with
        table := deleteRows (fun e r ↦ e = eventId ∧ r.lockedBy = owner p) s.table
        held := s.held.filter (fun h ↦ !(h.process = p ∧ h.eventId = eventId)) }
    else none
  | .reap p =>
    if s.phase p = .idle then
      some { s with table := deleteRows (fun _ r ↦ r.expiresAt < s.now) s.table }
    else none
  | .crash p => some { s with phase := Function.update s.phase p .crashed }

omit [DecidableEq π] in
def init (now : ℤ) : State π := ⟨now, fun _ ↦ none, fun _ ↦ none, fun _ ↦ .idle, []⟩

/-- A lock that has not expired stands in the table, and a row names the process that made it. -/
structure Sound (s : State π) : Prop where
  held : ∀ h ∈ s.held, s.now ≤ h.expiresAt →
    ∃ r, s.table h.eventId = some r ∧ r.lockedBy = owner h.process ∧ r.expiresAt = h.expiresAt
  row : ∀ e r, s.table e = some r → ∃ p, s.insertedBy e = some p ∧ r.lockedBy = owner p

variable {owner configured} {s t : State π} {op : Op π}

omit [DecidableEq π] in
/-- A deletion that spares the rows of the locks that are left, where these have not expired. -/
theorem Sound.deleteRows (h : Sound owner s) {cond : ℕ → Row → Bool}
    (htable : t.table = deleteRows cond s.table) (hnow : t.now = s.now)
    (hinserted : t.insertedBy = s.insertedBy)
    (hheld : ∀ l ∈ t.held, l ∈ s.held ∧ ∀ r, s.now ≤ r.expiresAt →
      r.lockedBy = owner l.process → cond l.eventId r = false) : Sound owner t := by
  refine ⟨?_, ?_⟩
  · intro l hl hexpires
    rw [hnow] at hexpires
    obtain ⟨hl', hspared⟩ := hheld l hl
    obtain ⟨r, hr, howner, heq⟩ := h.held l hl' hexpires
    refine ⟨r, ?_, howner, heq⟩
    rw [htable]
    exact deleteRows_eq_some.mpr ⟨hr, hspared r (heq ▸ hexpires) howner⟩
  · intro e r hr
    rw [htable] at hr
    rw [hinserted]
    exact h.row e r (deleteRows_eq_some.mp hr).1

omit [DecidableEq π] in
theorem insert_sound (h : Sound owner s) {p : π} {e : ℕ} {expiresAt : ℤ} {phase : π → Phase}
    (hnone : s.table e = none) :
    Sound owner { s with
      table := Function.update s.table e (some ⟨owner p, s.now, expiresAt⟩)
      insertedBy := Function.update s.insertedBy e (some p)
      phase := phase
      held := ⟨p, e, expiresAt⟩ :: s.held } := by
  refine ⟨?_, ?_⟩
  · intro l hl hexpires
    rcases List.mem_cons.mp hl with rfl | hl
    · exact ⟨⟨owner p, s.now, expiresAt⟩, Function.update_self .., rfl, rfl⟩
    · obtain ⟨r, hr, hrest⟩ := h.held l hl hexpires
      have hne : l.eventId ≠ e := by
        rintro rfl
        simp [hnone] at hr
      exact ⟨r, (Function.update_of_ne hne ..).trans hr, hrest⟩
  · intro e' r hr
    by_cases heq : e' = e
    · subst heq
      simp only [Function.update_self, Option.some.injEq] at hr ⊢
      exact ⟨p, rfl, hr ▸ rfl⟩
    · simp only [ne_eq, heq, not_false_eq_true, Function.update_of_ne] at hr ⊢
      exact h.row e' r hr

theorem step_sound (howner : Function.Injective owner) (h : Sound owner s)
    (hstep : step owner configured s op = some t) : Sound owner t := by
  cases op with
  | tick seconds =>
    obtain rfl := Option.some.inj hstep
    refine ⟨fun l hl hexpires ↦ h.held l hl ?_, h.row⟩
    simp only at hexpires
    omega
  | clear p eventId timeout =>
    obtain ⟨-, hstep⟩ := Option.ite_none_right_eq_some.mp hstep
    obtain rfl := Option.some.inj hstep
    refine h.deleteRows rfl rfl rfl fun l hl ↦ ⟨hl, ?_⟩
    intro r hexpires _
    simp [Int.not_lt.mpr hexpires]
  | insert p =>
    simp only [step] at hstep
    split at hstep
    case h_1 eventId timeout hphase =>
      cases htable : s.table eventId with
      | some r =>
        simp only [htable, Option.some.injEq] at hstep
        subst hstep
        exact ⟨h.held, h.row⟩
      | none =>
        simp only [htable, Option.some.injEq] at hstep
        subst hstep
        exact insert_sound h htable
    case h_2 => cases hstep
  | release p eventId =>
    obtain ⟨-, hstep⟩ := Option.ite_none_right_eq_some.mp hstep
    obtain rfl := Option.some.inj hstep
    refine h.deleteRows rfl rfl rfl fun l hl ↦ ?_
    obtain ⟨hl, hother⟩ := List.mem_filter.mp hl
    refine ⟨hl, ?_⟩
    intro r _ hby
    by_cases heq : l.eventId = eventId
    · have hne : l.process ≠ p := by
        rintro rfl
        simp [heq] at hother
      simp [heq, hby, howner.ne hne]
    · simp [heq]
  | reap p =>
    obtain ⟨-, hstep⟩ := Option.ite_none_right_eq_some.mp hstep
    obtain rfl := Option.some.inj hstep
    refine h.deleteRows rfl rfl rfl fun l hl ↦ ⟨hl, ?_⟩
    intro r hexpires _
    simp [Int.not_lt.mpr hexpires]
  | crash p =>
    obtain rfl := Option.some.inj hstep
    exact ⟨h.held, h.row⟩

omit [DecidableEq π] in
theorem init_sound (now : ℤ) : Sound owner (init now) := by
  refine ⟨?_, ?_⟩
  · intro l hl
    cases hl
  · intro e r hr
    cases hr

theorem reachable_sound (howner : Function.Injective owner) {now : ℤ}
    (hs : Reachable (step owner configured) (init now) s) : Sound owner s := by
  obtain ⟨ops, hrun⟩ := hs
  exact hrun.invariant (fun _ _ _ h _ hstep ↦ step_sound howner h hstep) (init_sound now)

omit [DecidableEq π] in
theorem Sound.exclusive (howner : Function.Injective owner) (h : Sound owner s) {l l' : Held π}
    (hl : l ∈ s.held) (hl' : l' ∈ s.held) (hevent : l.eventId = l'.eventId)
    (hexpires : s.now ≤ l.expiresAt) (hexpires' : s.now ≤ l'.expiresAt) :
    l.process = l'.process := by
  obtain ⟨r, hr, hby, -⟩ := h.held l hl hexpires
  obtain ⟨r', hr', hby', -⟩ := h.held l' hl' hexpires'
  rw [hevent, hr'] at hr
  obtain rfl := Option.some.inj hr
  exact howner (hby.symm.trans hby')

theorem Sound.release_own (howner : Function.Injective owner) (h : Sound owner s) {p : π}
    {eventId e : ℕ} {r : Row} (hstep : step owner configured s (.release p eventId) = some t)
    (hr : s.table e = some r) (hgone : t.table e ≠ some r) : s.insertedBy e = some p := by
  obtain ⟨-, hstep⟩ := Option.ite_none_right_eq_some.mp hstep
  obtain rfl := Option.some.inj hstep
  have hcond : e = eventId ∧ r.lockedBy = owner p := by
    by_contra hcond
    refine hgone ?_
    rw [deleteRows_eq_some]
    exact ⟨hr, decide_eq_false hcond⟩
  obtain ⟨p', hp', hby⟩ := h.row e r hr
  rw [hp', howner (hby.symm.trans hcond.2)]

theorem insert_step {p : π} {e : ℕ} {timeout : ℤ} (hphase : s.phase p = .acquiring e timeout)
    (hnone : s.table e = none) : step owner configured s (.insert p) = some { s with
      table := Function.update s.table e (some ⟨owner p, s.now, s.now + timeout⟩)
      insertedBy := Function.update s.insertedBy e (some p)
      phase := Function.update s.phase p .idle
      held := ⟨p, e, s.now + timeout⟩ :: s.held } := by
  simp only [step, hphase, hnone]

/-- The clock may go on between the two statements. -/
theorem acquire_alone {p : π} {e : ℕ} (hidle : s.phase p = .idle)
    (hexpired : ∀ r, s.table e = some r → r.expiresAt < s.now) (timeout : Option ℤ)
    (seconds : ℕ) :
    ∃ t, Run (step owner configured) (fun _ _ ↦ True) s
        [.clear p e timeout, .tick seconds, .insert p] t ∧
      ⟨p, e, s.now + seconds + lockTimeout configured timeout⟩ ∈ t.held := by
  have hclear : deleteRows (fun e' r ↦ e' = e ∧ r.expiresAt < s.now) s.table e = none := by
    rw [Option.eq_none_iff_forall_ne_some]
    intro r hr
    obtain ⟨hr', hcond⟩ := deleteRows_eq_some.mp hr
    simp [hexpired r hr'] at hcond
  exact ⟨_, .cons trivial (if_pos hidle) (.cons trivial rfl (.one trivial
    (insert_step (Function.update_self ..) hclear))), List.mem_cons_self⟩

omit owner in
theorem locks_exclude {serverId : π → Option ℕ} {pid : π → ℕ}
    (howner : Function.Injective fun p ↦ lockOwner (serverId p) (pid p)) {now : ℤ}
    (hs : Reachable (step (fun p ↦ lockOwner (serverId p) (pid p)) configured) (init now) s) :
    (∀ l ∈ s.held, ∀ l' ∈ s.held, l.eventId = l'.eventId → s.now ≤ l.expiresAt →
      s.now ≤ l'.expiresAt → l.process = l'.process) ∧
    (∀ p eventId t, step (fun p ↦ lockOwner (serverId p) (pid p)) configured s
        (.release p eventId) = some t →
      ∀ e r, s.table e = some r → t.table e ≠ some r → s.insertedBy e = some p) ∧
    ∀ p e, s.phase p = .idle → (∀ r, s.table e = some r → r.expiresAt < s.now) →
      ∀ timeout seconds, ∃ t,
        Run (step (fun p ↦ lockOwner (serverId p) (pid p)) configured) (fun _ _ ↦ True) s
          [.clear p e timeout, .tick seconds, .insert p] t ∧
        ⟨p, e, s.now + seconds + lockTimeout configured timeout⟩ ∈ t.held := by
  have h := reachable_sound howner hs
  refine ⟨?_, ?_, ?_⟩
  · intro l hl l' hl' hevent hexpires hexpires'
    exact h.exclusive howner hl hl' hevent hexpires hexpires'
  · intro p eventId t hstep e r hr hgone
    exact h.release_own howner hstep hr hgone
  · intro p e hidle hexpired timeout seconds
    exact acquire_alone hidle hexpired timeout seconds

end

/-- Process 0 is slow: its lock expires, is reaped and retaken before it releases it. -/
theorem locks_exclude_late_release : ∃ s : State (Fin 2),
    s.held = [⟨1, 42, 1905⟩] ∧ (s.table 42).map Row.lockedBy = some "0.101" ∧
      ∀ l ∈ s.held, ∀ l' ∈ s.held, l.eventId = l'.eventId → s.now ≤ l.expiresAt →
        s.now ≤ l'.expiresAt → l.process = l'.process := by
  obtain ⟨s, hrun, hq⟩ := Run.exists_of_any
    (step (fun p : Fin 2 ↦ lockOwner none (100 + p)) none) (fun _ _ ↦ True) (init 0)
    [.clear 0 42 (some 900), .insert 0, .tick 1000, .reap 1, .clear 1 42 (some 900), .tick 5,
      .insert 1, .release 0 42]
    (fun s ↦ s.held = [⟨1, 42, 1905⟩] ∧ (s.table 42).map Row.lockedBy = some "0.101")
    (by decide)
  simp only [decide_eq_true_eq] at hq
  refine ⟨s, hq.1, hq.2, (locks_exclude ?_ ⟨_, hrun⟩).1⟩
  intro p p'
  revert p p'
  decide

end ZoneMinder.EventLock
