import ZoneMinder.Access.Permissions

namespace ZoneMinder.Access

open Lib Forest Tables

variable {α : Type} {db : Tables} {g mid : ℕ} {rows : List GroupPermission} {grants : Grants}
  {user : User}

/-- A monitor of the system that was not deleted. -/
def Shown (db : Tables) (mid : ℕ) : Prop :=
  ∃ monitor ∈ db.monitors, monitor.id = mid ∧ monitor.deleted = false

theorem Web.foldl_hash (key : α → ℕ) {results rows : List α}
    (h : ((results ++ rows).map key).Nodup) :
    rows.foldl (fun results a ↦
      if results.any (fun b ↦ key b = key a) then
        results.map (fun b ↦ if key b = key a then a else b)
      else results ++ [a]) results = results ++ rows := by
  induction rows generalizing results with
  | nil => simp
  | cons a rows ih =>
    have hnew : results.any (fun b ↦ key b = key a) = false := by
      rw [List.any_eq_false]
      intro b hb he
      rw [List.map_append, List.nodup_append] at h
      exact h.2.2 (key b) (List.mem_map_of_mem hb) (key a) (by simp) (by simpa using he)
    rw [List.foldl_cons, if_neg (by simp [hnew]), ih (by simpa using h)]
    simp

theorem Web.arrayToHashByKey_eq {key : α → ℕ} {rows : List α} (h : (rows.map key).Nodup) :
    Web.arrayToHashByKey key rows = rows := by
  have hfold := @Web.foldl_hash α key [] rows (by simpa using h)
  simpa [Web.arrayToHashByKey] using hfold

theorem Daemon.loadMonitorPermissions_eq {rows : List MonitorPermission}
    (h : (rows.map MonitorPermission.monitorId).Nodup) :
    Daemon.loadMonitorPermissions rows mid =
      (rows.find? (fun p ↦ p.monitorId = mid)).map MonitorPermission.permission := by
  suffices hall : ∀ perms : ℕ → Option Permission,
      rows.foldl (fun (perms : ℕ → Option Permission) (p : MonitorPermission) ↦
          Function.update perms p.monitorId (some p.permission)) perms mid =
        ((rows.find? (fun p ↦ p.monitorId = mid)).map MonitorPermission.permission).or
          (perms mid) by
    simpa [Daemon.loadMonitorPermissions] using hall (fun _ ↦ none)
  induction rows with
  | nil => simp
  | cons p rows ih =>
    obtain ⟨hp, hrows⟩ : (∀ q ∈ rows, q.monitorId ≠ p.monitorId) ∧
        (rows.map MonitorPermission.monitorId).Nodup := by simpa using h
    intro perms
    rw [List.foldl_cons, ih hrows]
    by_cases hmid : p.monitorId = mid
    · have hnone : rows.find? (fun p ↦ p.monitorId = mid) = none := by
        rw [List.find?_eq_none]
        intro q hq he
        apply hp q hq
        rw [hmid]
        simpa using he
      simp [hmid, hnone]
    · simp [hmid, Function.update_of_ne (Ne.symm hmid)]

theorem monitorPermission_verdict (grants : Grants) (mid : ℕ) :
    (Web.monitorPermission grants.monitorPermissions mid).verdict =
      (Daemon.loadMonitorPermissions grants.monitorPermissions mid).bind Permission.verdict := by
  rw [Web.monitorPermission, Web.arrayToHashByKey_eq grants.monitorKeys,
    Daemon.loadMonitorPermissions_eq grants.monitorKeys]
  cases grants.monitorPermissions.find? (fun p ↦ p.monitorId = mid) <;> rfl

/-- Only groups that are there have monitors. -/
theorem mem_groupIds_of_belongs (hdb : db.WellFormed) (h : db.Belongs g mid) :
    g ∈ db.groupIds := by
  obtain ⟨d, hd, hm⟩ := h
  rcases below_iff.mp hd with rfl | ⟨b, hb, -⟩
  · exact hdb.listedGroups _ (mem_listed.mp hm)
  · obtain ⟨group, hgroup, -⟩ := List.mem_map.mp hb
    obtain ⟨hmem, hp⟩ := List.mem_filter.mp hgroup
    exact hdb.parents group hmem g (by simpa using hp)

/-- Both sides give a group permission to the same monitors. -/
theorem monitorPermission_eq_getPermission (hdb : db.WellFormed) (hm : Shown db mid)
    (p : GroupPermission) :
    Web.GroupPermission.monitorPermission db mid p =
      Daemon.GroupPermission.getPermission db mid p := by
  have hweb : (Web.monitors db p.groupId).any (fun monitor ↦ monitor.id = mid) ↔
      db.Belongs p.groupId mid := by
    have hany := Web.monitor_mem_iff (g := p.groupId) (m := mid) hdb
    rw [List.any_eq_true]
    simp only [decide_eq_true_eq]
    rw [hany]
    exact and_iff_left hm
  have hdaemon : mid ∈ Daemon.monitorIds db p.groupId ↔ db.Belongs p.groupId mid := by
    by_cases hg : p.groupId ∈ db.groupIds
    · exact Daemon.mem_monitorIds hdb hg
    · rw [Daemon.monitorIds, if_neg hg]
      exact iff_of_false (by simp) (fun hb ↦ hg (mem_groupIds_of_belongs hdb hb))
  unfold Web.GroupPermission.monitorPermission Daemon.GroupPermission.getPermission
  by_cases hb : db.Belongs p.groupId mid
  · rw [if_pos (hweb.mpr hb), if_pos (hdaemon.mpr hb)]
  · rw [if_neg (mt hweb.mp hb), if_neg (mt hdaemon.mp hb)]

def GroupsDeny (db : Tables) (rows : List GroupPermission) (mid : ℕ) : Prop :=
  ∃ p ∈ rows, Web.GroupPermission.monitorPermission db mid p = .none

def GroupsInherit (db : Tables) (rows : List GroupPermission) (mid : ℕ) : Prop :=
  ∀ p ∈ rows, Web.GroupPermission.monitorPermission db mid p = .inherit

instance (db : Tables) (rows : List GroupPermission) (mid : ℕ) :
    Decidable (GroupsDeny db rows mid) :=
  inferInstanceAs (Decidable (∃ p ∈ rows, _))

instance (db : Tables) (rows : List GroupPermission) (mid : ℕ) :
    Decidable (GroupsInherit db rows mid) :=
  inferInstanceAs (Decidable (∀ p ∈ rows, _))

@[simp] theorem groupsDeny_cons {p : GroupPermission} :
    GroupsDeny db (p :: rows) mid ↔
      Web.GroupPermission.monitorPermission db mid p = .none ∨ GroupsDeny db rows mid := by
  simp [GroupsDeny]

@[simp] theorem groupsInherit_cons {p : GroupPermission} :
    GroupsInherit db (p :: rows) mid ↔
      Web.GroupPermission.monitorPermission db mid p = .inherit ∧ GroupsInherit db rows mid := by
  simp [GroupsInherit]

theorem Web.verdict_groupPermissionValue (rows : List GroupPermission) (value : Permission) :
    (Web.groupPermissionValue db mid rows value).verdict =
      if GroupsDeny db rows mid then some false
      else if GroupsInherit db rows mid then value.verdict
      else some true := by
  induction rows generalizing value with
  | nil => simp [Web.groupPermissionValue, GroupsDeny, GroupsInherit]
  | cons p rows ih =>
    rw [Web.groupPermissionValue]
    cases hp : Web.GroupPermission.monitorPermission db mid p with
    | inherit => simpa [hp] using ih value
    | none => simp [hp, Permission.verdict]
    | view =>
      have hgrant : Permission.verdict .view = some true := rfl
      simpa [hp, hgrant] using ih .view
    | edit =>
      have hgrant : Permission.verdict .edit = some true := rfl
      simpa [hp, hgrant] using ih .edit

/-- What the group rows say of a monitor, without those that inherit, in row order. -/
def groupValues (db : Tables) (mid : ℕ) (rows : List GroupPermission) : List Permission :=
  (rows.map (Daemon.GroupPermission.getPermission db mid)).filter (· ≠ .inherit)

theorem Daemon.groupsVerdict_eq (db : Tables) (mid : ℕ) (rows : List GroupPermission) :
    Daemon.groupsVerdict db mid rows =
      (groupValues db mid rows).head?.bind Permission.verdict := by
  induction rows with
  | nil => rfl
  | cons p rows ih =>
    cases hp : Daemon.GroupPermission.getPermission db mid p <;>
      simp [Daemon.groupsVerdict, groupValues, hp, Permission.verdict]
    simpa [groupValues] using ih

/-- A deny anywhere among the rows ends the page's loop; the last other row counts. -/
theorem Web.groupPermissionValue_verdict (hdb : db.WellFormed) (hm : Shown db mid)
    (rows : List GroupPermission) (value : Permission) :
    (Web.groupPermissionValue db mid rows value).verdict =
      if .none ∈ groupValues db mid rows then some false
      else if groupValues db mid rows = [] then value.verdict else some true := by
  have hdeny : GroupsDeny db rows mid ↔ .none ∈ groupValues db mid rows := by
    simp [GroupsDeny, groupValues, monitorPermission_eq_getPermission hdb hm]
  have hinherit : GroupsInherit db rows mid ↔ groupValues db mid rows = [] := by
    simp [GroupsInherit, groupValues, monitorPermission_eq_getPermission hdb hm]
  rw [Web.verdict_groupPermissionValue]
  simp only [hdeny, hinherit]

/-- The groups of a user, or of a role, deny the monitor in a row that is not the first to
say anything of it. -/
def LateDeny (db : Tables) (grants : Grants) (mid : ℕ) : Prop :=
  (Web.monitorPermission grants.monitorPermissions mid) = .inherit ∧
    .none ∈ groupValues db mid grants.groupPermissions ∧
    (groupValues db mid grants.groupPermissions).head? ≠ some .none

/-- No row of a user, or of a role, says anything of the monitor. -/
def Silent (db : Tables) (grants : Grants) (mid : ℕ) : Prop :=
  (Web.monitorPermission grants.monitorPermissions mid) = .inherit ∧
    groupValues db mid grants.groupPermissions = []

instance (db : Tables) (grants : Grants) (mid : ℕ) : Decidable (LateDeny db grants mid) :=
  inferInstanceAs (Decidable (_ ∧ _ ∧ _))

theorem Permission.verdict_eq_none {p : Permission} : p.verdict = Option.none ↔ p = .inherit := by
  cases p <;> simp [Permission.verdict]

theorem mem_groupValues_ne {p : Permission} (h : p ∈ groupValues db mid rows) : p ≠ .inherit := by
  simpa using (List.mem_filter.mp h).2

theorem rowsVerdict_none (hdb : db.WellFormed) (hm : Shown db mid) (grants : Grants) :
    Web.rowsVerdict db grants mid = none ↔ Silent db grants mid := by
  rw [Web.rowsVerdict, Option.or_eq_none_iff, Permission.verdict_eq_none,
    Web.arrayToHashByKey_eq grants.groupKeys, Web.groupPermissionValue_verdict hdb hm]
  apply and_congr_right
  intro _
  split_ifs with h h'
  · exact iff_of_false (by simp) (List.ne_nil_of_mem h)
  · simp [h', Permission.verdict]
  · exact iff_of_false (by simp) h'

/-- The two sides read the rows of a user, or of a role, alike but for a late deny. -/
theorem rowsVerdict_cases (hdb : db.WellFormed) (hm : Shown db mid) (grants : Grants) :
    (LateDeny db grants mid ∧ Web.rowsVerdict db grants mid = some false ∧
      Daemon.rowsVerdict db grants mid = some true) ∨
    (¬LateDeny db grants mid ∧
      Web.rowsVerdict db grants mid = Daemon.rowsVerdict db grants mid) := by
  unfold Web.rowsVerdict Daemon.rowsVerdict
  rw [← monitorPermission_verdict, Daemon.groupsVerdict_eq,
    Web.arrayToHashByKey_eq grants.groupKeys, Web.groupPermissionValue_verdict hdb hm]
  cases hown : Web.monitorPermission grants.monitorPermissions mid with
  | none => exact .inr ⟨by simp [LateDeny, hown], rfl⟩
  | view => exact .inr ⟨by simp [LateDeny, hown], rfl⟩
  | edit => exact .inr ⟨by simp [LateDeny, hown], rfl⟩
  | inherit =>
    cases hvalues : groupValues db mid grants.groupPermissions with
    | nil => exact .inr ⟨by simp [LateDeny, hvalues], rfl⟩
    | cons p ps =>
      have hp : p ≠ .inherit := by
        have hmem : p ∈ groupValues db mid grants.groupPermissions := by simp [hvalues]
        exact mem_groupValues_ne hmem
      by_cases hdeny : Permission.none ∈ ps
      · cases p with
        | inherit => exact absurd rfl hp
        | none => exact .inr ⟨by simp [LateDeny, hvalues], by simp [Permission.verdict]⟩
        | view =>
          left
          simp [LateDeny, hown, hvalues, hdeny, Permission.verdict]
        | edit =>
          left
          simp [LateDeny, hown, hvalues, hdeny, Permission.verdict]
      · cases p with
        | inherit => exact absurd rfl hp
        | none => exact .inr ⟨by simp [LateDeny, hvalues], by simp [Permission.verdict]⟩
        | view =>
          right
          simp [LateDeny, hvalues, hdeny, Permission.verdict]
        | edit =>
          right
          simp [LateDeny, hvalues, hdeny, Permission.verdict]

/-- A deny of the user's groups, or of the role's where the user's rows are silent, is late. -/
def DenyMasked (db : Tables) (user : User) (mid : ℕ) : Prop :=
  LateDeny db user.grants mid ∨
    Silent db user.grants mid ∧ ∃ role ∈ user.role, LateDeny db role mid

theorem visibleMonitor_eq_canAccess_iff (hdb : db.WellFormed) (hm : Shown db mid) (user : User) :
    Web.visibleMonitor db user mid = Daemon.canAccess db user mid ↔ ¬DenyMasked db user mid := by
  unfold Web.visibleMonitor Daemon.canAccess DenyMasked
  have hsilent := rowsVerdict_none hdb hm user.grants
  rcases rowsVerdict_cases hdb hm user.grants with ⟨hlate, hweb, hdaemon⟩ | ⟨hlate, hsame⟩
  · simp [hlate, hweb, hdaemon]
  · rw [← hsame]
    cases hv : Web.rowsVerdict db user.grants mid with
    | some answer =>
      have hns : ¬Silent db user.grants mid := fun hs ↦ by simp [hsilent.mpr hs] at hv
      simp [hlate, hns]
    | none =>
      have hs : Silent db user.grants mid := hsilent.mp hv
      cases hr : user.role with
      | none => simp [hlate, Daemon.loadRoleBasePermissions, hr]
      | some role =>
        rcases rowsVerdict_cases hdb hm role with ⟨hrole, hweb, hdaemon⟩ | ⟨hrole, hsame'⟩
        · simp [hs, hrole, hweb, hdaemon]
        · cases hv' : Web.rowsVerdict db role mid with
          | some answer => simp [hlate, hrole, ← hsame', hv']
          | none =>
            by_cases hb : user.grants.base.monitors = .none
            · by_cases hb' : role.base.monitors = .none <;>
                simp [hlate, hrole, ← hsame', hv', Daemon.loadRoleBasePermissions, hr,
                  Daemon.fallback, hb, hb']
            · simp [hlate, hrole, ← hsame', hv', Daemon.loadRoleBasePermissions, hr,
                Daemon.fallback, hb]

def noLevels : BaseLevels := ⟨.none, .none, .none, .none, .none, .none⟩

def groupGrants (rows : List GroupPermission) (h : (rows.map GroupPermission.groupId).Nodup) :
    Grants := ⟨noLevels, [], rows, by simp, h⟩

/-- Two groups list the one monitor. -/
def overlapping : Tables where
  groups := [⟨1, ['A'], none⟩, ⟨2, ['B'], none⟩]
  groupsMonitors := [(1, 5), (2, 5)]
  monitors := [⟨5, false⟩]

theorem overlapping_wellFormed : overlapping.WellFormed where
  groupIds := by decide
  parents := by simp [overlapping]
  listedGroups := by decide
  monitorIds := by decide
  acyclic := by
    intro a b hb
    simp [children, overlapping] at hb

def grantThenDeny : User := ⟨groupGrants [⟨1, .view⟩, ⟨2, .none⟩] (by decide), none⟩

def denyThenGrant : User := ⟨groupGrants [⟨1, .none⟩, ⟨2, .view⟩] (by decide), none⟩

theorem visibleMonitor_ne_canAccess :
    ¬∀ (db : Tables) (user : User) (mid : ℕ), db.WellFormed → Shown db mid →
      (Web.visibleMonitor db user mid = true ↔ Daemon.canAccess db user mid = true) := by
  intro h
  have hm : Shown overlapping 5 := ⟨⟨5, false⟩, by simp [overlapping], rfl, rfl⟩
  have hdaemon : Daemon.canAccess overlapping grantThenDeny 5 = true := by decide
  have hweb := (h overlapping grantThenDeny 5 overlapping_wellFormed hm).mpr hdaemon
  exact absurd hweb (by decide)

theorem visibleMonitor_eq_canAccess_denyThenGrant :
    Web.visibleMonitor overlapping denyThenGrant 5 =
      Daemon.canAccess overlapping denyThenGrant 5 := by
  have hm : Shown overlapping 5 := ⟨⟨5, false⟩, by simp [overlapping], rfl, rfl⟩
  apply (visibleMonitor_eq_canAccess_iff overlapping_wellFormed hm denyThenGrant).mpr
  rintro (hlate | ⟨-, role, hrole, -⟩)
  · exact absurd hlate (by decide)
  · simp [denyThenGrant] at hrole

end ZoneMinder.Access
