import ZoneMinder.Access.Membership
import ZoneMinder.Lib.Run

namespace ZoneMinder.Access

open Lib Forest Tables GroupSave

variable {c : Coercion} {db : Tables} {user : User} {request : SaveRequest} {newId g m : ℕ}
  {accepted : Bool} {merge : List ℕ → List ℕ → List ℕ}

/-- The group is loaded, then its own list and that of each of its children, one after the other;
`none` while the calls are not done. A group that is not in the table has no id. -/
def expandMonitorIds (merge : List ℕ → List ℕ → List ℕ) (db : Tables) : ℕ → ℕ → Option (List ℕ)
  | 0, _ => none
  | depth + 1, g =>
    if g = 0 ∨ g ∉ db.groupIds then some []
    else
      (db.children g).foldlM (fun ids child ↦
        (expandMonitorIds merge db depth child).map (merge ids)) (db.listed g)

def Daemon.monitorIdsWithin (db : Tables) (depth g : ℕ) : Option (List ℕ) :=
  expandMonitorIds (fun ids found ↦ ids ++ found) db depth g

def Web.monitorIdsWithin (db : Tables) (depth g : ℕ) : Option (List ℕ) :=
  expandMonitorIds (fun ids found ↦ (ids ++ found).eraseDups) db depth g

/-- The calls end with the monitors attached to the group or to a group below it. -/
def ReturnsMonitors (db : Tables) (monitorIdsWithin : Tables → ℕ → ℕ → Option (List ℕ))
    (g : ℕ) : Prop :=
  ∃ depth ids, monitorIdsWithin db depth g = some ids ∧ ∀ m, m ∈ ids ↔ db.Belongs g m

/-- For every group, and whatever the groups list. -/
def Expands (groups : List Group) : Prop :=
  ∀ groupsMonitors monitors, ∀ g ∈ (Tables.mk groups groupsMonitors monitors).groupIds,
    ReturnsMonitors ⟨groups, groupsMonitors, monitors⟩ Daemon.monitorIdsWithin g ∧
      ReturnsMonitors ⟨groups, groupsMonitors, monitors⟩ Web.monitorIdsWithin g

/-- What the keys of the table of groups promise. -/
structure Keyed (db : Tables) : Prop where
  groupIds : db.groupIds.Nodup
  positive : 0 ∉ db.groupIds
  parents : ∀ group ∈ db.groups, ∀ p, group.parentId = some p → p ∈ db.groupIds

/-- A save, with what else may have been changed before it. -/
structure Save where
  user : User
  newId : ℕ
  accepted : Bool
  request : SaveRequest
  groupsMonitors : List (ℕ × ℕ)
  monitors : List Monitor

/-- The other tables as they are when the save comes. -/
def Save.before (db : Tables) (s : Save) : Tables :=
  { db with groupsMonitors := s.groupsMonitors, monitors := s.monitors }

/-- The id of a new row is one that no row has. -/
def saveStep (c : Coercion) (db : Tables) (s : Save) : Option Tables :=
  if s.newId = 0 ∨ s.newId ∈ db.groupIds then none
  else some (save c (s.before db) s.user s.newId s.accepted s.request)

/-- The id that the saved row has. -/
def rowId (c : Coercion) (db : Tables) (newId : ℕ) (request : SaveRequest) : ℕ :=
  ((findGroup c db request.gid).map Group.id).getD newId

/-- The save puts a group under itself, or under a group that is below it. -/
def Loops (c : Coercion) (db : Tables) (user : User) (newId : ℕ) (accepted : Bool)
    (request : SaveRequest) : Prop :=
  passes c db user request ∧ accepted ∧
    ∃ parent, storedParent c db newId request = some (some parent) ∧
      Below db.children (rowId c db newId request) parent

def Save.Loops (c : Coercion) (db : Tables) (s : Save) : Prop :=
  Access.Loops c (s.before db) s.user s.newId s.accepted s.request

theorem Keyed.mem_of_mem_children (hdb : Keyed db) {b : ℕ} (h : b ∈ db.children g) :
    g ∈ db.groupIds := by
  obtain ⟨group, hgroup, -⟩ := List.mem_map.mp h
  obtain ⟨hmem, hp⟩ := List.mem_filter.mp hgroup
  exact hdb.parents group hmem g (by simpa using hp)

theorem expandMonitorIds_eq (hdb : Keyed db) (hg : g ∈ db.groupIds) (depth : ℕ) :
    expandMonitorIds merge db depth g = expand db.children db.listed merge depth g := by
  induction depth generalizing g with
  | zero => rfl
  | succ depth ih =>
    have hknown : ¬(g = 0 ∨ g ∉ db.groupIds) := by
      rintro (rfl | hnot)
      · exact hdb.positive hg
      · exact hnot hg
    rw [expandMonitorIds, if_neg hknown, expand]
    exact foldlM_congr fun b hb ↦ ih (mem_groupIds_of_mem_children hb)

theorem isSome_expandMonitorIds (hdb : Keyed db) (hac : Acyclic db.children)
    (hg : g ∈ db.groupIds) :
    (expandMonitorIds merge db (db.groups.length + 1) g).isSome := by
  rw [expandMonitorIds_eq hdb hg]
  refine isSome_expand hac (?_ : ∀ a b, b ∈ db.children a → b ∈ db.groupIds.toFinset) ?_
  · intro a b hb
    exact List.mem_toFinset.mpr (mem_groupIds_of_mem_children hb)
  · have hle : db.groupIds.toFinset.card ≤ db.groupIds.length := List.toFinset_card_le _
    have hlen : db.groupIds.length = db.groups.length := by simp [Tables.groupIds]
    omega

theorem mem_expandMonitorIds (hdb : Keyed db) (hg : g ∈ db.groupIds)
    (hmerge : ∀ l l' : List ℕ, m ∈ merge l l' ↔ m ∈ l ∨ m ∈ l') {depth : ℕ} {ids : List ℕ}
    (h : expandMonitorIds merge db depth g = some ids) : m ∈ ids ↔ db.Belongs g m := by
  rw [expandMonitorIds_eq hdb hg] at h
  exact mem_expand hmerge h

/-- On a forest the calls return what the tables are otherwise read for. -/
theorem Daemon.monitorIdsWithin_eq (hdb : Keyed db) (hac : Acyclic db.children)
    (hg : g ∈ db.groupIds) :
    Daemon.monitorIdsWithin db (db.groups.length + 1) g = some (Daemon.monitorIds db g) := by
  have hend := @isSome_expandMonitorIds _ _ (fun ids found ↦ ids ++ found) hdb hac hg
  rw [expandMonitorIds_eq hdb hg] at hend
  rw [Daemon.monitorIdsWithin, expandMonitorIds_eq hdb hg, Daemon.monitorIds, if_pos hg]
  refine expand_eq ?_ hend
  intro fuel a
  simp [collect, List.flatMap_def]

theorem Web.monitorIdsWithin_eq (hdb : Keyed db) (hac : Acyclic db.children)
    (hg : g ∈ db.groupIds) :
    Web.monitorIdsWithin db (db.groups.length + 1) g = some (Web.monitorIds db g) := by
  have hend := @isSome_expandMonitorIds _ _ (fun ids found ↦ (ids ++ found).eraseDups) hdb hac hg
  rw [expandMonitorIds_eq hdb hg] at hend
  rw [Web.monitorIdsWithin, expandMonitorIds_eq hdb hg]
  exact expand_eq (fun fuel a ↦ rfl) hend

theorem returnsMonitors_of_acyclic (hdb : Keyed db) (hac : Acyclic db.children)
    (hg : g ∈ db.groupIds) (hmerge : ∀ m, ∀ l l' : List ℕ, m ∈ merge l l' ↔ m ∈ l ∨ m ∈ l') :
    ReturnsMonitors db (expandMonitorIds merge) g := by
  obtain ⟨ids, hids⟩ := Option.isSome_iff_exists.mp
    (@isSome_expandMonitorIds _ _ merge hdb hac hg)
  exact ⟨_, ids, hids, fun m ↦ mem_expandMonitorIds hdb hg (hmerge m) hids⟩

theorem expands_iff (hdb : Keyed db) : Expands db.groups ↔ Acyclic db.children := by
  constructor
  · intro h a b hb hba
    have ha := hdb.mem_of_mem_children hb
    obtain ⟨⟨depth, ids, hids, -⟩, -⟩ := h db.groupsMonitors db.monitors a ha
    rw [Daemon.monitorIdsWithin, expandMonitorIds_eq hdb ha] at hids
    exact not_below_of_expand (Option.isSome_iff_exists.mpr ⟨ids, hids⟩) hb hba
  · intro hac groupsMonitors monitors g hg
    have hdb' : Keyed ⟨db.groups, groupsMonitors, monitors⟩ :=
      ⟨hdb.groupIds, hdb.positive, hdb.parents⟩
    exact ⟨returnsMonitors_of_acyclic hdb' hac hg (by simp),
      returnsMonitors_of_acyclic hdb' hac hg (by simp)⟩

theorem rowId_of_found {group : Group} (hg : findGroup c db request.gid = some group) :
    rowId c db newId request = group.id := by
  rw [rowId, hg]
  rfl

theorem rowId_of_new (hg : findGroup c db request.gid = none) :
    rowId c db newId request = newId := by
  rw [rowId, hg]
  rfl

theorem save_groups (h : passes c db user request) :
    (save c db user newId accepted request).groups = (saveRow c db newId accepted request).1 := by
  rw [save_of_passes h]

theorem storedParent_mem {parent : ℕ}
    (h : storedParent c db newId request = some (some parent)) :
    parent ∈ db.groupIds ∨ parent = newId ∧ findGroup c db request.gid = none := by
  unfold storedParent at h
  split at h
  · cases h
  split at h
  · cases h
  split at h
  · cases h
  next k hk =>
    split_ifs at h with hmem
    obtain rfl : k = parent := Option.some.inj (Option.some.inj h)
    simpa using hmem

theorem keyed_save (hdb : Keyed db) (hzero : newId ≠ 0) (hnew : newId ∉ db.groupIds)
    (h : passes c db user request) {parent : Option ℕ}
    (hparent : storedParent c db newId request = some parent) :
    Keyed (save c db user newId true request) := by
  have hmem : ∀ p, parent = some p → p ∈ db.groupIds ∨ p = newId ∧
      findGroup c db request.gid = none := by
    rintro p rfl
    exact storedParent_mem hparent
  cases hg : findGroup c db request.gid with
  | some group =>
    have hgroups : (save c db user newId true request).groups = db.groups.map (fun row ↦
        if row.id = group.id then ⟨row.id, filterName request.name, parent⟩ else row) := by
      simp only [save_groups h, saveRow, hparent, hg]
    have hids : (save c db user newId true request).groupIds = db.groupIds := by
      rw [Tables.groupIds, hgroups, List.map_map]
      apply List.map_congr_left
      intro row _
      simp only [Function.comp_apply]
      split_ifs <;> rfl
    refine ⟨hids ▸ hdb.groupIds, hids ▸ hdb.positive, ?_⟩
    rw [hids, hgroups]
    intro row hrow p hp
    obtain ⟨old, hold, rfl⟩ := List.mem_map.mp hrow
    split_ifs at hp
    · simpa [hg] using hmem p hp
    · exact hdb.parents old hold p hp
  | none =>
    have hgroups : (save c db user newId true request).groups =
        db.groups ++ [⟨newId, filterName request.name, parent⟩] := by
      simp only [save_groups h, saveRow, hparent, hg]
    have hids : (save c db user newId true request).groupIds = db.groupIds ++ [newId] := by
      rw [Tables.groupIds, hgroups, List.map_append]
      rfl
    refine ⟨?_, ?_, ?_⟩
    · rw [hids, List.nodup_append]
      refine ⟨hdb.groupIds, List.nodup_singleton _, ?_⟩
      rintro a ha b hb rfl
      exact hnew (List.mem_singleton.mp hb ▸ ha)
    · rw [hids]
      simpa [hdb.positive] using hzero.symm
    · rw [hids, hgroups]
      intro row hrow p hp
      rcases List.mem_append.mp hrow with hrow | hrow
      · exact List.mem_append_left _ (hdb.parents row hrow p hp)
      · obtain rfl := List.mem_singleton.mp hrow
        rcases hmem p hp with hold | ⟨rfl, -⟩
        · exact List.mem_append_left _ hold
        · simp

/-- The saved row has the one edge that its parent gives it. -/
theorem mem_children_saved (hnew : newId ∉ db.groupIds) (h : passes c db user request)
    {parent : Option ℕ} (hparent : storedParent c db newId request = some parent) (a : ℕ) :
    rowId c db newId request ∈ (save c db user newId true request).children a ↔
      parent = some a := by
  rw [Tables.children, save_groups h]
  cases hg : findGroup c db request.gid with
  | some group =>
    have hmem := (findGroup_eq_some hg).1
    simp only [saveRow, hparent, hg, rowId_of_found hg, List.mem_map, List.mem_filter,
      decide_eq_true_eq]
    constructor
    · rintro ⟨row, ⟨⟨old, -, rfl⟩, hp⟩, hid⟩
      by_cases he : old.id = group.id
      · rwa [if_pos he] at hp
      · rw [if_neg he] at hid
        exact absurd hid he
    · rintro rfl
      exact ⟨_, ⟨⟨group, hmem, rfl⟩, by rw [if_pos rfl]⟩, by rw [if_pos rfl]⟩
  | none =>
    have hold : ∀ row ∈ db.groups, row.id ≠ newId := by
      intro row hrow he
      exact hnew (he ▸ List.mem_map_of_mem hrow)
    simp only [saveRow, hparent, hg, rowId_of_new hg, List.mem_map, List.mem_filter,
      List.mem_append, List.mem_singleton, decide_eq_true_eq]
    constructor
    · rintro ⟨row, ⟨hrow | rfl, hp⟩, hid⟩
      · exact absurd hid (hold row hrow)
      · exact hp
    · rintro rfl
      exact ⟨_, ⟨.inr rfl, rfl⟩, rfl⟩

/-- A save leaves the table of groups as it is, or changes the edge into one group only. -/
theorem save_cases (c : Coercion) (hdb : Keyed db) (user : User) (hzero : newId ≠ 0)
    (hnew : newId ∉ db.groupIds) (accepted : Bool) (request : SaveRequest) :
    ((save c db user newId accepted request).groups = db.groups ∧
      ¬Loops c db user newId accepted request) ∨
    ∃ parent, passes c db user request ∧ accepted ∧
      storedParent c db newId request = some parent ∧
      Keyed (save c db user newId accepted request) ∧
      (∀ a, rowId c db newId request ∈ (save c db user newId accepted request).children a ↔
        parent = some a) ∧
      ∀ a b, b ≠ rowId c db newId request →
        (b ∈ (save c db user newId accepted request).children a ↔ b ∈ db.children a) := by
  by_cases hpass : passes c db user request
  swap
  · left
    rw [save_of_refused (by simpa using hpass)]
    exact ⟨rfl, fun hloop ↦ hpass hloop.1⟩
  cases accepted with
  | false =>
    left
    rw [save_groups hpass]
    exact ⟨rfl, fun hloop ↦ absurd hloop.2.1 (by decide)⟩
  | true =>
    cases hparent : storedParent c db newId request with
    | none =>
      left
      rw [save_groups hpass]
      refine ⟨by simp only [saveRow, hparent], ?_⟩
      rintro ⟨-, -, parent, hstored, -⟩
      simp [hparent] at hstored
    | some parent =>
      right
      refine ⟨parent, hpass, rfl, rfl, keyed_save hdb hzero hnew hpass hparent,
        mem_children_saved hnew hpass hparent, ?_⟩
      intro a b hb
      apply mem_children_save hpass
      · intro group hg
        rwa [rowId_of_found hg] at hb
      · intro hg
        rwa [rowId_of_new hg] at hb

theorem Keyed.of_groups (hdb : Keyed db) {db' : Tables} (h : db'.groups = db.groups) :
    Keyed db' := by
  have hids : db'.groupIds = db.groupIds := by rw [Tables.groupIds, h, Tables.groupIds]
  refine ⟨hids ▸ hdb.groupIds, hids ▸ hdb.positive, ?_⟩
  rw [hids, h]
  exact hdb.parents

theorem Keyed.save (hdb : Keyed db) (hzero : newId ≠ 0) (hnew : newId ∉ db.groupIds) :
    Keyed (GroupSave.save c db user newId accepted request) := by
  rcases save_cases c hdb user hzero hnew accepted request with
    ⟨hsame, -⟩ | ⟨parent, -, -, -, hkeyed, -⟩
  · exact hdb.of_groups hsame
  · exact hkeyed

/-- The forest stays one exactly where the save does not close a loop. -/
theorem acyclic_save_iff (hdb : Keyed db) (hac : Acyclic db.children) (hzero : newId ≠ 0)
    (hnew : newId ∉ db.groupIds) :
    Acyclic (save c db user newId accepted request).children ↔
      ¬Loops c db user newId accepted request := by
  rcases save_cases c hdb user hzero hnew accepted request with
    ⟨hsame, hloop⟩ | ⟨parent, hpass, haccepted, hparent, -, hedge, hother⟩
  · have hchildren : (save c db user newId accepted request).children = db.children := by
      funext a
      rw [Tables.children, hsame, Tables.children]
    rw [hchildren]
    exact iff_of_true hac hloop
  · constructor
    · rintro hac' ⟨-, -, p, hp, hbelow⟩
      obtain rfl : parent = some p := Option.some.inj (hparent.symm.trans hp)
      have hbelow' := hbelow.of_kept fun a b hb hab ↦ (hother a b hb).mpr hab
      exact hac' p _ ((hedge p).mpr rfl) hbelow'
    · intro hloop
      apply hac.of_moved fun a b hb hab ↦ (hother a b hb).mp hab
      intro a ha hbelow
      obtain rfl : parent = some a := (hedge a).mp ha
      exact hloop ⟨hpass, haccepted, a, hparent, hbelow⟩

theorem saveStep_eq_some {s : Save} {db' : Tables} (h : saveStep c db s = some db') :
    s.newId ≠ 0 ∧ s.newId ∉ db.groupIds ∧
      db' = save c (s.before db) s.user s.newId s.accepted s.request := by
  rw [saveStep] at h
  split_ifs at h with hid
  obtain ⟨hzero, hnew⟩ := not_or.mp hid
  exact ⟨hzero, hnew, (Option.some.inj h).symm⟩

theorem Keyed.saveStep {s : Save} {db' : Tables} (hdb : Keyed db)
    (h : Access.saveStep c db s = some db') : Keyed db' := by
  obtain ⟨hzero, hnew, rfl⟩ := saveStep_eq_some h
  exact Keyed.save (hdb.of_groups rfl) hzero hnew

theorem acyclic_saveStep_iff {s : Save} {db' : Tables} (hdb : Keyed db)
    (hac : Acyclic db.children) (h : saveStep c db s = some db') :
    Acyclic db'.children ↔ ¬s.Loops c db := by
  obtain ⟨hzero, hnew, rfl⟩ := saveStep_eq_some h
  have hbefore : Keyed (s.before db) := hdb.of_groups rfl
  exact acyclic_save_iff hbefore hac hzero hnew

/-- In a run of saves the groups are a forest all along where no save closes a loop. -/
theorem acyclic_along_iff {db' : Tables} {saves : List Save} (hdb : Keyed db)
    (hac : Acyclic db.children) (h : Run (saveStep c) (fun _ _ ↦ True) db saves db') :
    (∀ before reached, before <+: saves →
      Run (saveStep c) (fun _ _ ↦ True) db before reached → Acyclic reached.children) ↔
      Run (saveStep c) (fun db s ↦ ¬s.Loops c db) db saves db' := by
  induction h with
  | nil db =>
    refine iff_of_true ?_ (.nil db)
    intro before reached hbefore hrun
    obtain rfl := List.prefix_nil.mp hbefore
    cases hrun
    exact hac
  | @cons db next last s saves _ hstep hrun ih =>
    have hloop := acyclic_saveStep_iff hdb hac hstep
    have hkeyed := hdb.saveStep hstep
    constructor
    · intro hall
      have hnext : Acyclic next.children := hall [s] next (by simp) (.one trivial hstep)
      refine .cons (hloop.mp hnext) hstep ((ih hkeyed hnext).mp ?_)
      intro before reached hbefore hrun
      exact hall (s :: before) reached (by simpa using hbefore) (.cons trivial hstep hrun)
    · intro hpromised before reached hbefore hreached
      cases hpromised with
      | cons hs hstep' hrest =>
        obtain rfl := Option.some.inj (hstep.symm.trans hstep')
        cases hreached with
        | nil => exact hac
        | cons _ hfirst hreached =>
          obtain ⟨rfl, hrestBefore⟩ := List.cons_prefix_cons.mp hbefore
          obtain rfl := Option.some.inj (hstep.symm.trans hfirst)
          exact (ih hkeyed (hloop.mpr hs)).mpr hrest _ _ hrestBefore hreached

theorem keyed_of_no_groups (h : db.groups = []) : Keyed db := by
  have hids : db.groupIds = [] := by rw [Tables.groupIds, h, List.map_nil]
  exact ⟨by simp [hids], by simp [hids], by simp [h]⟩

theorem acyclic_of_no_groups (h : db.groups = []) : Acyclic db.children := by
  intro a b hb
  simp [Tables.children, h] at hb

/-- In every state of a run of saves both expansions end with the monitors of the group, where
none of the saves puts a group under itself or under one below it, and only there. -/
theorem expands_along_iff {db' : Tables} {saves : List Save} (hempty : db.groups = [])
    (h : Run (saveStep c) (fun _ _ ↦ True) db saves db') :
    (∀ before reached, before <+: saves →
      Run (saveStep c) (fun _ _ ↦ True) db before reached → Expands reached.groups) ↔
      Run (saveStep c) (fun db s ↦ ¬s.Loops c db) db saves db' := by
  have hdb := keyed_of_no_groups hempty
  have hreached : ∀ {before reached},
      Run (saveStep c) (fun _ _ ↦ True) db before reached → Keyed reached := by
    intro before reached hrun
    exact hrun.invariant (fun db s db' hdb _ hstep ↦ hdb.saveStep hstep) hdb
  rw [← acyclic_along_iff hdb (acyclic_of_no_groups hempty) h]
  constructor
  · intro hall before reached hbefore hrun
    exact (expands_iff (hreached hrun)).mp (hall before reached hbefore hrun)
  · intro hall before reached hbefore hrun
    exact (expands_iff (hreached hrun)).mpr (hall before reached hbefore hrun)

def noGroups : Tables := ⟨[], [], []⟩

/-- A save of a group named A without monitors. -/
def saveA (newId : ℕ) (gid parentId : List Char) : Save :=
  ⟨groupEditor, newId, true, ⟨.text gid, .text ['A'], .text parentId, none⟩, [], []⟩

/-- A group is made, and another one below it. -/
theorem expands_along_two : Expands [⟨1, ['A'], none⟩, ⟨2, ['A'], some 1⟩] := by
  have hone : saveStep decimal noGroups (saveA 1 [] []) = some ⟨[⟨1, ['A'], none⟩], [], []⟩ := by
    decide
  have htwo : saveStep decimal ⟨[⟨1, ['A'], none⟩], [], []⟩ (saveA 2 [] ['1']) =
      some ⟨[⟨1, ['A'], none⟩, ⟨2, ['A'], some 1⟩], [], []⟩ := by decide
  have hroot : ¬(saveA 1 [] []).Loops decimal noGroups := by
    rintro ⟨-, -, parent, hparent, -⟩
    have hnone : storedParent decimal noGroups 1 (saveA 1 [] []).request = some none := by decide
    exact absurd (hnone.symm.trans hparent) (by simp)
  have hchild : ¬(saveA 2 [] ['1']).Loops decimal ⟨[⟨1, ['A'], none⟩], [], []⟩ := by
    rintro ⟨-, -, parent, hparent, hbelow⟩
    obtain rfl : 1 = parent := by
      have hone : storedParent decimal ⟨[⟨1, ['A'], none⟩], [], []⟩ 2 (saveA 2 [] ['1']).request =
          some (some 1) := by decide
      exact Option.some.inj (Option.some.inj (hone.symm.trans hparent))
    rcases below_iff.mp hbelow with h | ⟨b, hb, -⟩
    · exact absurd h (by decide)
    · exact absurd hb (by simp [Tables.children, Save.before, rowId, findGroup, saveA])
  have hrun : Run (saveStep decimal) (fun _ _ ↦ True) noGroups _ _ :=
    .cons trivial hone (.one trivial htwo)
  have hpromised : Run (saveStep decimal) (fun db s ↦ ¬s.Loops decimal db) noGroups _ _ :=
    .cons hroot hone (.one hchild htwo)
  exact (expands_along_iff rfl hrun).mpr hpromised _ _ (List.prefix_refl _) hrun

/-- A group is made, and put under itself. -/
theorem not_expands :
    ¬∀ (c : Coercion) (db db' : Tables) (saves : List Save), db.groups = [] →
      Run (saveStep c) (fun _ _ ↦ True) db saves db' → Expands db'.groups := by
  intro h
  have hrun := Run.exists_of_any (saveStep decimal) (fun _ _ ↦ True) noGroups
    [saveA 1 [] [], saveA 2 ['1'] ['1']] (fun db ↦ 1 ∈ db.children 1) (by decide)
  obtain ⟨db', hrun, hloop⟩ := hrun
  have hkeyed : Keyed db' := hrun.invariant (fun db s db' hdb _ hstep ↦ hdb.saveStep hstep)
    (keyed_of_no_groups rfl)
  have hac := (expands_iff hkeyed).mp (h decimal noGroups db' _ rfl hrun)
  exact hac 1 1 (by simpa using hloop) (Below.refl _ _)

end ZoneMinder.Access
