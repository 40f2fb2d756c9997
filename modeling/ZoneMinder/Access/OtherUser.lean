import ZoneMinder.Access.Visible

namespace ZoneMinder.Access

variable {db : Tables} {mid : ℕ} {rows : List GroupPermission} {grants : Grants}

structure Account where
  id : ℕ
  user : User

/-- The errors a page stops on. -/
inductive Fault
  | memberOfNull | objectAsArray
  deriving DecidableEq

namespace Web

/-- No class has the method, so it is a call of a property: it is set to what it is given, and
that is what the call returns. -/
def canEditMonitor (_ : GroupPermission) (mid : ℕ) : ℕ := mid

namespace Monitor

/-- The page asks for the user who is logged in, or for another one. -/
def canEdit (db : Tables) (user : Account) (u : Option Account) (mid : ℕ) : Except Fault Bool :=
  match u with
  | none => .ok (editableMonitor db user.user mid)
  | some u =>
    if u.id = user.id then .ok (editableMonitor db user.user mid)
    else
      match monitorPermission u.user.grants.monitorPermissions mid with
      | .none | .view => .ok false
      | .inherit | .edit =>
        -- the message of a deny reads a variable that nothing sets
        if (arrayToHashByKey GroupPermission.groupId u.user.grants.groupPermissions).any
          (fun permission ↦ canEditMonitor permission mid = 0) then .error .memberOfNull
        else .error .objectAsArray

/-- The first row of the role on the monitor that does not inherit answers. -/
def roleMonitorVerdict (mid : ℕ) : List MonitorPermission → Option Bool
  | [] => none
  | rmp :: rmps =>
    if rmp.monitorId = mid ∧ rmp.permission ≠ .inherit then some (rmp.permission ≠ .none)
    else roleMonitorVerdict mid rmps

def canView (db : Tables) (user : Account) (u : Option Account) (mid : ℕ) : Bool :=
  match u with
  | none => visibleMonitor db user.user mid
  | some u =>
    if u.id = user.id then visibleMonitor db user.user mid
    -- a row of the user's own only ever denies
    else if monitorPermission u.user.grants.monitorPermissions mid = .none then false
    else
      match (groupPermissionValue db mid
        (arrayToHashByKey GroupPermission.groupId u.user.grants.groupPermissions)
          .inherit).verdict with
      | some answer => answer
      | none =>
        match u.user.role with
        | none => u.user.grants.base.monitors ≠ .none
        | some role =>
          match roleMonitorVerdict mid
            (arrayToHashByKey MonitorPermission.monitorId role.monitorPermissions) with
          | some answer => answer
          | none =>
            match (groupPermissionValue db mid
              (arrayToHashByKey GroupPermission.groupId role.groupPermissions)
                .inherit).verdict with
            | some answer => answer
            | none =>
              if u.user.grants.base.monitors = .none ∧ role.base.monitors ≠ .none then true
              else u.user.grants.base.monitors ≠ .none

end Monitor

end Web

/-- The method answers for another user as the page's functions do for the one logged in. -/
def AnswersAlike (db : Tables) (user u : Account) (mid : ℕ) : Prop :=
  Web.Monitor.canView db user (some u) mid = Web.visibleMonitor db u.user mid ∧
    Web.Monitor.canEdit db user (some u) mid = .ok (Web.editableMonitor db u.user mid)

def RoleDenies (db : Tables) (base : BaseLevels) (role : Grants) (mid : ℕ) : Prop :=
  match Web.monitorPermission role.monitorPermissions mid with
  | .none => True
  | .view | .edit => False
  | .inherit =>
    GroupsDeny db role.groupPermissions mid ∨
      GroupsInherit db role.groupPermissions mid ∧ base.monitors = .none ∧ role.base.monitors = .none

/-- A user without a row of their own on the monitor would not see it. -/
def DeniedBelow (db : Tables) (user : User) (mid : ℕ) : Prop :=
  GroupsDeny db user.grants.groupPermissions mid ∨
    GroupsInherit db user.grants.groupPermissions mid ∧
      match user.role with
      | none => user.grants.base.monitors = .none
      | some role => RoleDenies db user.grants.base role mid

theorem Web.verdict_groups (grants : Grants) :
    (Web.groupPermissionValue db mid
      (Web.arrayToHashByKey GroupPermission.groupId grants.groupPermissions) .inherit).verdict =
      if GroupsDeny db grants.groupPermissions mid then some false
      else if GroupsInherit db grants.groupPermissions mid then none
      else some true := by
  rw [Web.arrayToHashByKey_eq grants.groupKeys, Web.verdict_groupPermissionValue]
  rfl

theorem Web.Monitor.roleMonitorVerdict_of_forall_ne {rows : List MonitorPermission}
    (h : ∀ q ∈ rows, q.monitorId ≠ mid) : Web.Monitor.roleMonitorVerdict mid rows = none := by
  induction rows with
  | nil => rfl
  | cons p rows ih =>
    obtain ⟨hp, hrows⟩ := List.forall_mem_cons.mp h
    rw [Web.Monitor.roleMonitorVerdict, if_neg (fun hcond ↦ hp hcond.1), ih hrows]

/-- A role has one row for a monitor, so its first row that does not inherit is a lookup. -/
theorem Web.Monitor.roleMonitorVerdict_eq {rows : List MonitorPermission}
    (h : (rows.map MonitorPermission.monitorId).Nodup) :
    Web.Monitor.roleMonitorVerdict mid (Web.arrayToHashByKey MonitorPermission.monitorId rows) =
      (Web.monitorPermission rows mid).verdict := by
  rw [Web.monitorPermission, Web.arrayToHashByKey_eq h]
  induction rows with
  | nil => rfl
  | cons p rows ih =>
    obtain ⟨hp, hrows⟩ : (∀ q ∈ rows, q.monitorId ≠ p.monitorId) ∧
        (rows.map MonitorPermission.monitorId).Nodup := by simpa using h
    by_cases hmid : p.monitorId = mid
    · subst hmid
      have hnone := Web.Monitor.roleMonitorVerdict_of_forall_ne hp
      cases hperm : p.permission <;>
        simp [Web.Monitor.roleMonitorVerdict, hperm, hnone, Permission.verdict]
    · simp [Web.Monitor.roleMonitorVerdict, hmid, ih hrows]

/-- What the page's function gives where no row of the user's own decides. -/
def seenBelow (db : Tables) (user : User) (mid : ℕ) : Bool :=
  match (Web.groupPermissionValue db mid
    (Web.arrayToHashByKey GroupPermission.groupId user.grants.groupPermissions)
      .inherit).verdict with
  | some answer => answer
  | none =>
    match user.role with
    | none => user.grants.base.monitors ≠ .none
    | some role =>
      match Web.rowsVerdict db role mid with
      | some answer => answer
      | none =>
        if user.grants.base.monitors = .none ∧ role.base.monitors ≠ .none then true
        else user.grants.base.monitors ≠ .none

theorem visibleMonitor_eq (user : User) :
    Web.visibleMonitor db user mid =
      ((Web.monitorPermission user.grants.monitorPermissions mid).verdict).getD
        (seenBelow db user mid) := by
  unfold Web.visibleMonitor Web.rowsVerdict seenBelow
  cases Web.monitorPermission user.grants.monitorPermissions mid with
  | none => rfl
  | view => rfl
  | edit => rfl
  | inherit =>
    cases user.role <;> rfl

theorem canView_eq {user u : Account} (h : u.id ≠ user.id) :
    Web.Monitor.canView db user (some u) mid =
      (Web.monitorPermission u.user.grants.monitorPermissions mid ≠ .none &&
        seenBelow db u.user mid) := by
  unfold Web.Monitor.canView seenBelow Web.rowsVerdict
  simp only [if_neg h]
  by_cases hown : Web.monitorPermission u.user.grants.monitorPermissions mid = .none
  · simp [hown]
  · rw [if_neg hown]
    cases hrole : u.user.role with
    | none => simp [hown]
    | some role =>
      simp only [Web.Monitor.roleMonitorVerdict_eq role.monitorKeys]
      cases (Web.monitorPermission role.monitorPermissions mid).verdict <;> simp [hown]

theorem seenBelow_eq_false_iff (user : User) :
    seenBelow db user mid = false ↔ DeniedBelow db user mid := by
  unfold seenBelow DeniedBelow
  rw [Web.verdict_groups]
  by_cases hdeny : GroupsDeny db user.grants.groupPermissions mid
  · simp [hdeny]
  · by_cases hall : GroupsInherit db user.grants.groupPermissions mid
    · simp only [hdeny, hall, if_true, if_false, false_or, true_and]
      cases hrole : user.role with
      | none => simp
      | some role =>
        simp only [Web.rowsVerdict, RoleDenies, Web.verdict_groups]
        cases Web.monitorPermission role.monitorPermissions mid with
        | none => simp [Permission.verdict]
        | view => simp [Permission.verdict]
        | edit => simp [Permission.verdict]
        | inherit =>
          by_cases hdeny' : GroupsDeny db role.groupPermissions mid
          · simp [hdeny', Permission.verdict]
          · by_cases hall' : GroupsInherit db role.groupPermissions mid
            · by_cases hb : user.grants.base.monitors = .none
              · simp [hdeny', hall', hb, Permission.verdict]
              · simp [hdeny', hall', hb, Permission.verdict]
            · simp [hdeny', hall', Permission.verdict]
    · simp [hdeny, hall]

/-- On viewing the two differ where the user's own row grants what the other layers deny. -/
theorem canView_eq_iff {user u : Account} (h : u.id ≠ user.id) :
    Web.Monitor.canView db user (some u) mid = Web.visibleMonitor db u.user mid ↔
      (Web.monitorPermission u.user.grants.monitorPermissions mid = .view ∨
        Web.monitorPermission u.user.grants.monitorPermissions mid = .edit →
          ¬DeniedBelow db u.user mid) := by
  rw [canView_eq h, visibleMonitor_eq, ← seenBelow_eq_false_iff]
  cases Web.monitorPermission u.user.grants.monitorPermissions mid <;>
    simp [Permission.verdict]

/-- On editing the method answers only where the user's own row says no. -/
theorem canEdit_ok_iff {user u : Account} (h : u.id ≠ user.id) {answer : Bool} :
    Web.Monitor.canEdit db user (some u) mid = .ok answer ↔
      (Web.monitorPermission u.user.grants.monitorPermissions mid = .none ∨
        Web.monitorPermission u.user.grants.monitorPermissions mid = .view) ∧
        answer = false := by
  simp only [Web.Monitor.canEdit, if_neg h]
  cases Web.monitorPermission u.user.grants.monitorPermissions mid with
  | none => simp [eq_comm]
  | view => simp [eq_comm]
  | inherit => split_ifs <;> simp
  | edit => split_ifs <;> simp

theorem editableMonitor_of_refused {user : User}
    (h : Web.monitorPermission user.grants.monitorPermissions mid = .none ∨
      Web.monitorPermission user.grants.monitorPermissions mid = .view) :
    Web.editableMonitor db user mid = false := by
  unfold Web.editableMonitor
  rw [visibleMonitor_eq, Web.rowsEditVerdict]
  rcases h with h | h <;> simp [h, Permission.verdict]

theorem answersAlike_iff (db : Tables) (user u : Account) (mid : ℕ) (h : u.id ≠ user.id) :
    AnswersAlike db user u mid ↔
      Web.monitorPermission u.user.grants.monitorPermissions mid = .none ∨
      Web.monitorPermission u.user.grants.monitorPermissions mid = .view ∧
        ¬DeniedBelow db u.user mid := by
  unfold AnswersAlike
  rw [canView_eq_iff h, canEdit_ok_iff h]
  constructor
  · rintro ⟨hview, hown | hown, -⟩
    · exact .inl hown
    · exact .inr ⟨hown, hview (.inl hown)⟩
  · rintro (hown | ⟨hown, hseen⟩)
    · exact ⟨by simp [hown], .inl hown, editableMonitor_of_refused (.inl hown)⟩
    · exact ⟨fun _ ↦ hseen, .inr hown, editableMonitor_of_refused (.inr hown)⟩

def viewer : User :=
  ⟨⟨{ noLevels with monitors := .view }, [⟨5, .view⟩], [], by decide, by decide⟩, none⟩

theorem answersAlike_viewer :
    AnswersAlike overlapping ⟨1, grantThenDeny⟩ ⟨2, viewer⟩ 5 := by
  apply (answersAlike_iff overlapping ⟨1, grantThenDeny⟩ ⟨2, viewer⟩ 5 (by decide)).mpr
  refine .inr ⟨by decide, ?_⟩
  rintro (⟨p, hp, -⟩ | ⟨-, hlevel⟩)
  · simp [viewer] at hp
  · simp [viewer] at hlevel

/-- A user whose one row grants editing of the monitor. -/
def editor : User := ⟨⟨noLevels, [⟨5, .edit⟩], [], by decide, by decide⟩, none⟩

theorem not_answersAlike :
    ¬∀ (db : Tables) (user u : Account) (mid : ℕ), db.WellFormed → u.id ≠ user.id →
      Web.Monitor.canView db user (some u) mid = Web.visibleMonitor db u.user mid ∧
        Web.Monitor.canEdit db user (some u) mid = .ok (Web.editableMonitor db u.user mid) := by
  intro h
  obtain ⟨hview, -⟩ :=
    h overlapping ⟨1, grantThenDeny⟩ ⟨2, editor⟩ 5 overlapping_wellFormed (by decide)
  have hseen : Web.visibleMonitor overlapping editor 5 = true := by decide
  rw [hseen] at hview
  exact absurd hview (by decide)

end ZoneMinder.Access
