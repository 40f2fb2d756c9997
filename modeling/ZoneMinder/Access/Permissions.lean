import ZoneMinder.Access.Groups

namespace ZoneMinder.Access

inductive Permission
  | inherit | none | view | edit
  deriving DecidableEq

/-- The level a user or a role holds in one area. -/
inductive Level
  | none | view | edit | create
  deriving DecidableEq

structure MonitorPermission where
  monitorId : ℕ
  permission : Permission
  deriving DecidableEq

structure GroupPermission where
  groupId : ℕ
  permission : Permission
  deriving DecidableEq

structure BaseLevels where
  stream : Level
  events : Level
  control : Level
  monitors : Level
  groups : Level
  system : Level
  deriving DecidableEq

/-- What a user, or a role, is granted. The unique keys of the permission tables leave one
row for a monitor and one for a group. -/
structure Grants where
  base : BaseLevels
  monitorPermissions : List MonitorPermission
  groupPermissions : List GroupPermission
  monitorKeys : (monitorPermissions.map MonitorPermission.monitorId).Nodup
  groupKeys : (groupPermissions.map GroupPermission.groupId).Nodup

structure User where
  grants : Grants
  role : Option Grants

/-- The answer a permission gives; one that is inherited gives none. -/
def Permission.verdict : Permission → Option Bool
  | .inherit => Option.none
  | .none => some false
  | .view | .edit => some true

namespace Web

variable {α : Type}

/-- Rows under their keys: a later row takes the place of an earlier one with its key. -/
def arrayToHashByKey (key : α → ℕ) (rows : List α) : List α :=
  rows.foldl (fun results a ↦
    if results.any (fun b ↦ key b = key a) then
      results.map (fun b ↦ if key b = key a then a else b)
    else results ++ [a]) []

def monitorPermission (rows : List MonitorPermission) (mid : ℕ) : Permission :=
  (((arrayToHashByKey MonitorPermission.monitorId rows).find? (fun p ↦ p.monitorId = mid)).map
    MonitorPermission.permission).getD .inherit

def GroupPermission.monitorPermission (db : Tables) (mid : ℕ) (p : GroupPermission) : Permission :=
  if (monitors db p.groupId).any (fun monitor ↦ monitor.id = mid) then p.permission else .inherit

/-- The value of a user's or a role's groups: a deny ends the loop, else the last grant counts. -/
def groupPermissionValue (db : Tables) (mid : ℕ) :
    List GroupPermission → Permission → Permission
  | [], value => value
  | p :: ps, value =>
    match GroupPermission.monitorPermission db mid p with
    | .none => .none
    | .view => groupPermissionValue db mid ps .view
    | .edit => groupPermissionValue db mid ps .edit
    | .inherit => groupPermissionValue db mid ps value

/-- What the rows of a user or of a role say of a monitor, its own row before its groups'. -/
def rowsVerdict (db : Tables) (grants : Grants) (mid : ℕ) : Option Bool :=
  (monitorPermission grants.monitorPermissions mid).verdict.or
    (groupPermissionValue db mid
      (arrayToHashByKey GroupPermission.groupId grants.groupPermissions) .inherit).verdict

def visibleMonitor (db : Tables) (user : User) (mid : ℕ) : Bool :=
  match rowsVerdict db user.grants mid with
  | some answer => answer
  | none =>
    match user.role with
    | some role =>
      match rowsVerdict db role mid with
      | some answer => answer
      | none =>
        -- the role's level stands in for a level of None
        if user.grants.base.monitors = .none ∧ role.base.monitors ≠ .none then true
        else user.grants.base.monitors ≠ .none
    | none => user.grants.base.monitors ≠ .none

/-- A monitor's own row decides on editing; groups only ever grant it. -/
def rowsEditVerdict (db : Tables) (grants : Grants) (mid : ℕ) : Option Bool :=
  match monitorPermission grants.monitorPermissions mid with
  | .none | .view => some false
  | .edit => some true
  | .inherit =>
    if (arrayToHashByKey GroupPermission.groupId grants.groupPermissions).any
      (fun p ↦ GroupPermission.monitorPermission db mid p = .edit) then some true
    else none

def Level.edits (level : Level) : Bool := level = .edit || level = .create

def editableMonitor (db : Tables) (user : User) (mid : ℕ) : Bool :=
  -- a monitor that is not visible is not editable either
  if !visibleMonitor db user mid then false
  else
    match rowsEditVerdict db user.grants mid with
    | some answer => answer
    | none =>
      match user.role with
      | some role =>
        match rowsEditVerdict db role mid with
        | some answer => answer
        | none => Level.edits role.base.monitors || Level.edits user.grants.base.monitors
      | none => Level.edits user.grants.base.monitors

def canEditGroups (user : User) : Bool :=
  Level.edits user.grants.base.groups || user.role.any (fun role ↦ Level.edits role.base.groups)

end Web

namespace Daemon

/-- The role's level is the fallback of a level of None. -/
def fallback (level role : Level) : Level :=
  if level = .none ∧ role ≠ .none then role else level

def loadRoleBasePermissions (user : User) : BaseLevels :=
  match user.role with
  | none => user.grants.base
  | some role =>
    { user.grants.base with
      stream := fallback user.grants.base.stream role.base.stream
      events := fallback user.grants.base.events role.base.events
      control := fallback user.grants.base.control role.base.control
      monitors := fallback user.grants.base.monitors role.base.monitors
      system := fallback user.grants.base.system role.base.system }

def loadMonitorPermissions (rows : List MonitorPermission) : ℕ → Option Permission :=
  rows.foldl (fun perms p ↦ Function.update perms p.monitorId (some p.permission))
    (fun _ ↦ none)

def GroupPermission.getPermission (db : Tables) (mid : ℕ) (p : GroupPermission) : Permission :=
  if mid ∈ monitorIds db p.groupId then p.permission else .inherit

/-- The first group permission that is not inherited answers. -/
def groupsVerdict (db : Tables) (mid : ℕ) : List GroupPermission → Option Bool
  | [] => none
  | p :: ps =>
    match GroupPermission.getPermission db mid p with
    | .none => some false
    | .view | .edit => some true
    | .inherit => groupsVerdict db mid ps

def rowsVerdict (db : Tables) (grants : Grants) (mid : ℕ) : Option Bool :=
  ((loadMonitorPermissions grants.monitorPermissions mid).bind Permission.verdict).or
    (groupsVerdict db mid grants.groupPermissions)

def canAccess (db : Tables) (user : User) (mid : ℕ) : Bool :=
  match rowsVerdict db user.grants mid with
  | some answer => answer
  | none =>
    match user.role.bind (fun role ↦ rowsVerdict db role mid) with
    | some answer => answer
    | none => (loadRoleBasePermissions user).monitors ≠ .none

end Daemon

end ZoneMinder.Access
