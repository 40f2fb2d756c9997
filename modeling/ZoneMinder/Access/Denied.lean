import ZoneMinder.Access.Visible

namespace ZoneMinder.Access

open Tables

variable {db : Tables} {g mid : ℕ} {user user' : User} {grants grants' : Grants}

/-- A group contains the monitors that it or a group below it lists, but for deleted ones. -/
def Contains (db : Tables) (g mid : ℕ) : Prop := db.Belongs g mid ∧ Shown db mid

/-- One row that says None, on any monitor or on any group, says something else in `grants'`. -/
inductive Grants.Relaxed (grants grants' : Grants) : Prop
  | monitor (before after : List MonitorPermission) (m : ℕ) (permission : Permission)
      (hold : grants.monitorPermissions = before ++ ⟨m, .none⟩ :: after)
      (hnew : grants'.monitorPermissions = before ++ ⟨m, permission⟩ :: after)
      (hgroups : grants'.groupPermissions = grants.groupPermissions)
      (hbase : grants'.base = grants.base)
  | group (before after : List GroupPermission) (g : ℕ) (permission : Permission)
      (hold : grants.groupPermissions = before ++ ⟨g, .none⟩ :: after)
      (hnew : grants'.groupPermissions = before ++ ⟨g, permission⟩ :: after)
      (hmonitors : grants'.monitorPermissions = grants.monitorPermissions)
      (hbase : grants'.base = grants.base)

/-- The row that changes is the user's own or the role's. -/
inductive User.Relaxed (user user' : User) : Prop
  | own (hgrants : user.grants.Relaxed user'.grants) (hrole : user'.role = user.role)
  | role (role role' : Grants) (hgrants : user'.grants = user.grants) (hold : user.role = some role)
      (hnew : user'.role = some role') (hrole : role.Relaxed role')

theorem Grants.Relaxed.base (h : grants.Relaxed grants') : grants'.base = grants.base := by
  cases h <;> assumption

theorem Web.groupMonitorPermission (hdb : db.WellFormed) (mid : ℕ) (p : GroupPermission) :
    (Contains db p.groupId mid ∧ Web.GroupPermission.monitorPermission db mid p = p.permission) ∨
      (¬Contains db p.groupId mid ∧
        Web.GroupPermission.monitorPermission db mid p = .inherit) := by
  have hlisted : (Web.monitors db p.groupId).any (fun monitor ↦ monitor.id = mid) ↔
      Contains db p.groupId mid := by
    have hmem := Web.monitor_mem_iff (g := p.groupId) (m := mid) hdb
    rw [List.any_eq_true]
    simp only [decide_eq_true_eq]
    exact hmem
  unfold Web.GroupPermission.monitorPermission
  by_cases hg : Contains db p.groupId mid
  · exact .inl ⟨hg, if_pos (hlisted.mpr hg)⟩
  · exact .inr ⟨hg, if_neg (mt hlisted.mp hg)⟩

theorem groupsDeny_iff (hdb : db.WellFormed) {rows : List GroupPermission} :
    GroupsDeny db rows mid ↔ ∃ p ∈ rows, p.permission = .none ∧ Contains db p.groupId mid := by
  apply exists_congr
  intro p
  apply and_congr_right
  intro _
  rcases Web.groupMonitorPermission hdb mid p with ⟨hg, hp⟩ | ⟨hg, hp⟩ <;> simp [hg, hp]

theorem Web.monitorPermission_eq (grants : Grants) (mid : ℕ) :
    Web.monitorPermission grants.monitorPermissions mid =
      ((grants.monitorPermissions.find? (fun p ↦ p.monitorId = mid)).map
        MonitorPermission.permission).getD .inherit := by
  rw [Web.monitorPermission, Web.arrayToHashByKey_eq grants.monitorKeys]

/-- A row is found under its monitor's id, as the only one with it. -/
theorem Web.monitorPermission_of_mem {p : MonitorPermission}
    (h : p ∈ grants.monitorPermissions) :
    Web.monitorPermission grants.monitorPermissions p.monitorId = p.permission := by
  rw [Web.monitorPermission_eq]
  cases hfind : grants.monitorPermissions.find? (fun q ↦ q.monitorId = p.monitorId) with
  | none => exact absurd (List.find?_eq_none.mp hfind p h) (by simp)
  | some q =>
    have hq : q.monitorId = p.monitorId := by simpa using List.find?_some hfind
    have hmem := List.mem_of_find?_eq_some hfind
    obtain rfl := List.inj_on_of_nodup_map grants.monitorKeys hmem h hq
    rfl

theorem Web.monitorPermission_cases (grants : Grants) (mid : ℕ) :
    Web.monitorPermission grants.monitorPermissions mid = .inherit ∨
      ∃ p ∈ grants.monitorPermissions, p.monitorId = mid ∧
        p.permission = Web.monitorPermission grants.monitorPermissions mid := by
  rw [Web.monitorPermission_eq]
  cases hfind : grants.monitorPermissions.find? (fun p ↦ p.monitorId = mid) with
  | none => exact .inl rfl
  | some p =>
    have hp : p.monitorId = mid := by simpa using List.find?_some hfind
    exact .inr ⟨p, List.mem_of_find?_eq_some hfind, hp, rfl⟩

theorem Web.rowsVerdict_eq (grants : Grants) (mid : ℕ) :
    Web.rowsVerdict db grants mid =
      (Web.monitorPermission grants.monitorPermissions mid).verdict.or
        (if GroupsDeny db grants.groupPermissions mid then some false
        else if GroupsInherit db grants.groupPermissions mid then none
        else some true) := by
  rw [Web.rowsVerdict, Web.arrayToHashByKey_eq grants.groupKeys, Web.verdict_groupPermissionValue]
  rfl

/-- A row that says None decides against the monitor, or the row says nothing of it. -/
theorem Web.rowsVerdict_relaxed (db : Tables) (h : grants.Relaxed grants') (mid : ℕ) :
    Web.rowsVerdict db grants mid = some false ∨
      Web.rowsVerdict db grants' mid = Web.rowsVerdict db grants mid := by
  cases h with
  | monitor before after m permission hold hnew hgroups hbase =>
    by_cases hm : m = mid
    · left
      have hmem : (⟨m, .none⟩ : MonitorPermission) ∈ grants.monitorPermissions := by simp [hold]
      have hown := Web.monitorPermission_of_mem hmem
      rw [hm] at hown
      rw [Web.rowsVerdict_eq, hown]
      rfl
    · right
      have hown : Web.monitorPermission grants'.monitorPermissions mid =
          Web.monitorPermission grants.monitorPermissions mid := by
        rw [Web.monitorPermission_eq, Web.monitorPermission_eq, hold, hnew]
        simp [hm]
      rw [Web.rowsVerdict_eq, Web.rowsVerdict_eq, hown, hgroups]
  | group before after g permission hold hnew hmonitors hbase =>
    rw [Web.rowsVerdict_eq, Web.rowsVerdict_eq, hold, hnew, hmonitors]
    cases Web.monitorPermission grants.monitorPermissions mid with
    | none => exact .inl rfl
    | view => exact .inr rfl
    | edit => exact .inr rfl
    | inherit =>
      by_cases hlist : (Web.monitors db g).any (fun monitor ↦ monitor.id = mid)
      · left
        have hdeny : GroupsDeny db (before ++ ⟨g, .none⟩ :: after) mid :=
          ⟨⟨g, .none⟩, by simp, if_pos hlist⟩
        simp [hdeny, Permission.verdict]
      · right
        have hrow : ∀ p : Permission,
            Web.GroupPermission.monitorPermission db mid ⟨g, p⟩ = .inherit := fun p ↦ if_neg hlist
        simp [GroupsDeny, GroupsInherit, hrow, or_and_right, or_imp, exists_or, forall_and]

theorem visibleMonitor_relaxed (h : user.Relaxed user')
    (hvisible : Web.visibleMonitor db user mid = true) :
    Web.visibleMonitor db user' mid = true := by
  unfold Web.visibleMonitor at hvisible ⊢
  cases h with
  | own hgrants hrole =>
    rcases Web.rowsVerdict_relaxed db hgrants mid with hdeny | hsame
    · simp [hdeny] at hvisible
    · rw [hsame, hrole, hgrants.base]
      exact hvisible
  | role role role' hgrants hold hnew hrole =>
    rw [hold] at hvisible
    rw [hgrants, hnew]
    cases hown : Web.rowsVerdict db user.grants mid with
    | some answer => rwa [hown] at hvisible
    | none =>
      rw [hown] at hvisible
      rcases Web.rowsVerdict_relaxed db hrole mid with hdeny | hsame
      · simp [hdeny] at hvisible
      · simp only [hsame, hrole.base]
        exact hvisible

theorem visibleMonitor_of_editableMonitor (h : Web.editableMonitor db user mid = true) :
    Web.visibleMonitor db user mid = true := by
  by_contra hnot
  rw [Web.editableMonitor, if_pos (by simpa using hnot)] at h
  exact absurd h (by decide)

/-- Without a row of the user's own that grants the monitor, a deny of a group stands. -/
theorem visibleMonitor_of_denied (hdeny : GroupsDeny db user.grants.groupPermissions mid)
    (hown : ∀ p ∈ user.grants.monitorPermissions, p.monitorId = mid →
      p.permission ≠ .view ∧ p.permission ≠ .edit) :
    Web.visibleMonitor db user mid = false := by
  have hrows : Web.rowsVerdict db user.grants mid = some false := by
    rw [Web.rowsVerdict_eq, if_pos hdeny]
    rcases Web.monitorPermission_cases user.grants mid with h | ⟨p, hp, hmid, h⟩
    · rw [h]
      rfl
    · obtain ⟨hview, hedit⟩ := hown p hp hmid
      rw [← h]
      cases hperm : p.permission with
      | inherit => rfl
      | none => rfl
      | view => exact absurd hperm hview
      | edit => exact absurd hperm hedit
  rw [Web.visibleMonitor, hrows]

/-- To edit is to view, a deny of a group is overruled by a row of the user's own only, and a
deny that is lifted hides nothing. -/
theorem denied_stays_hidden (hdb : db.WellFormed) (user : User) (mid : ℕ) :
    (Web.editableMonitor db user mid = true → Web.visibleMonitor db user mid = true) ∧
    ((∃ p ∈ user.grants.groupPermissions, p.permission = .none ∧ Contains db p.groupId mid) →
      (∀ p ∈ user.grants.monitorPermissions, p.monitorId = mid →
        p.permission ≠ .view ∧ p.permission ≠ .edit) →
      Web.visibleMonitor db user mid = false ∧ Web.editableMonitor db user mid = false) ∧
    ∀ user', user.Relaxed user' → Web.visibleMonitor db user mid = true →
      Web.visibleMonitor db user' mid = true := by
  refine ⟨visibleMonitor_of_editableMonitor, ?_, fun user' ↦ visibleMonitor_relaxed⟩
  intro hdeny hown
  have hhidden := visibleMonitor_of_denied ((groupsDeny_iff hdb).mpr hdeny) hown
  refine ⟨hhidden, ?_⟩
  by_contra hedit
  have hvisible := visibleMonitor_of_editableMonitor (Bool.eq_true_of_not_eq_false hedit)
  exact absurd (hhidden.symm.trans hvisible) (by decide)

/-- The deny of the second group stands over the grant of the first. -/
theorem denied_stays_hidden_overlapping :
    Web.visibleMonitor overlapping grantThenDeny 5 = false ∧
      Web.editableMonitor overlapping grantThenDeny 5 = false := by
  have hlisted : overlapping.Belongs 2 5 := ⟨2, Lib.Forest.Below.refl _ _, by decide⟩
  have hshown : Shown overlapping 5 := ⟨⟨5, false⟩, by simp [overlapping], rfl, rfl⟩
  apply (denied_stays_hidden overlapping_wellFormed grantThenDeny 5).2.1
  · exact ⟨⟨2, .none⟩, by decide, rfl, hlisted, hshown⟩
  · simp [grantThenDeny, groupGrants]

end ZoneMinder.Access
