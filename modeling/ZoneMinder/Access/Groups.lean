import ZoneMinder.Lib.Forest
import Mathlib.Data.List.Dedup

namespace ZoneMinder.Access

open Lib Forest

structure Group where
  id : ℕ
  name : List Char
  parentId : Option ℕ
  deriving DecidableEq

structure Monitor where
  id : ℕ
  deleted : Bool
  deriving DecidableEq

/-- The tables that say which monitors there are and which groups they belong to. -/
structure Tables where
  groups : List Group
  groupsMonitors : List (ℕ × ℕ)
  monitors : List Monitor
  deriving DecidableEq

namespace Tables

variable {db : Tables} {g m : ℕ}

def groupIds (db : Tables) : List ℕ := db.groups.map Group.id

def children (db : Tables) (g : ℕ) : List ℕ :=
  (db.groups.filter (fun group ↦ group.parentId = some g)).map Group.id

/-- The groups below, without the group `k`. -/
def apart (db : Tables) (k g : ℕ) : List ℕ := (db.children g).filter (· ≠ k)

/-- The monitors listed for the group itself. -/
def listed (db : Tables) (g : ℕ) : List ℕ :=
  (db.groupsMonitors.filter (fun row ↦ row.1 = g)).map Prod.snd

/-- A monitor belongs to a group that lists it or has it listed somewhere below. -/
def Belongs (db : Tables) (g m : ℕ) : Prop := Under db.children db.listed g m

/-- What the keys of the schema and the acyclic forest promise. -/
structure WellFormed (db : Tables) : Prop where
  groupIds : db.groupIds.Nodup
  parents : ∀ group ∈ db.groups, ∀ p, group.parentId = some p → p ∈ db.groupIds
  listedGroups : ∀ row ∈ db.groupsMonitors, row.1 ∈ db.groupIds
  monitorIds : (db.monitors.map Monitor.id).Nodup
  acyclic : Acyclic db.children

theorem mem_groupIds_of_mem_children {d : ℕ} (h : d ∈ db.children g) : d ∈ db.groupIds := by
  obtain ⟨group, hgroup, rfl⟩ := List.mem_map.mp h
  exact List.mem_map_of_mem (List.mem_of_mem_filter hgroup)

theorem mem_listed : m ∈ db.listed g ↔ (g, m) ∈ db.groupsMonitors := by
  simp [listed]

theorem mem_collect_iff_belongs (hdb : db.WellFormed) {fuel : ℕ} (hf : db.groups.length < fuel) :
    m ∈ collect db.children db.listed fuel g ↔ db.Belongs g m := by
  refine mem_collect_iff hdb.acyclic
    (?_ : ∀ a b, b ∈ db.children a → b ∈ db.groupIds.toFinset) ?_
  · intro a b hb
    exact List.mem_toFinset.mpr (mem_groupIds_of_mem_children hb)
  · have hle : db.groupIds.toFinset.card ≤ db.groupIds.length := List.toFinset_card_le _
    have hlen : db.groupIds.length = db.groups.length := by simp [Tables.groupIds]
    omega

end Tables

namespace Daemon

/-- The monitors of a group and of the groups below it; a group that is not there has none. -/
def monitorIds (db : Tables) (g : ℕ) : List ℕ :=
  if g ∈ db.groupIds then collect db.children db.listed (db.groups.length + 1) g else []

end Daemon

namespace Web

/-- As the daemons do, except that a merged list keeps one copy of every id. -/
def monitorIdsTo (db : Tables) : ℕ → ℕ → List ℕ
  | 0, _ => []
  | fuel + 1, g =>
    (db.children g).foldl (fun ids c ↦ (ids ++ monitorIdsTo db fuel c).eraseDups) (db.listed g)

def monitorIds (db : Tables) (g : ℕ) : List ℕ := monitorIdsTo db (db.groups.length + 1) g

/-- The rows of the group's monitors. What the children add by position is there already. -/
def monitorsTo (db : Tables) : ℕ → ℕ → List Monitor
  | 0, _ => []
  | fuel + 1, g =>
    (db.children g).foldl (fun rows c ↦ rows ++ (monitorsTo db fuel c).drop rows.length)
      (db.monitors.filter (fun monitor ↦ monitor.id ∈ monitorIds db g ∧ monitor.deleted = false))

def monitors (db : Tables) (g : ℕ) : List Monitor := monitorsTo db (db.groups.length + 1) g

end Web

open Tables

variable {db : Tables} {g m : ℕ}

theorem Daemon.mem_monitorIds (hdb : db.WellFormed) (hg : g ∈ db.groupIds) :
    m ∈ Daemon.monitorIds db g ↔ db.Belongs g m := by
  rw [Daemon.monitorIds, if_pos hg]
  exact mem_collect_iff_belongs hdb (by omega)

theorem mem_foldl_merge {α β : Type} {x : β} (ids : α → List β) (merge : List β → List β → List β)
    (hmerge : ∀ l l' : List β, x ∈ merge l l' ↔ x ∈ l ∨ x ∈ l') (cs : List α) (l : List β) :
    x ∈ cs.foldl (fun l c ↦ merge l (ids c)) l ↔ x ∈ l ∨ ∃ c ∈ cs, x ∈ ids c := by
  induction cs generalizing l with
  | nil => simp
  | cons c cs ih =>
    rw [List.foldl_cons, ih, hmerge]
    simp [or_assoc]

theorem Web.mem_monitorIdsTo {fuel : ℕ} :
    m ∈ Web.monitorIdsTo db fuel g ↔ m ∈ collect db.children db.listed fuel g := by
  induction fuel generalizing g with
  | zero => simp [Web.monitorIdsTo, collect]
  | succ fuel ih =>
    rw [Web.monitorIdsTo, mem_foldl_merge (Web.monitorIdsTo db fuel)
      (fun l l' ↦ (l ++ l').eraseDups) (by simp)]
    simp [collect, ih]

theorem Web.mem_monitorIds (hdb : db.WellFormed) :
    m ∈ Web.monitorIds db g ↔ db.Belongs g m := by
  rw [Web.monitorIds, Web.mem_monitorIdsTo]
  exact mem_collect_iff_belongs hdb (by omega)

theorem Web.mem_monitorsTo (hdb : db.WellFormed) {fuel : ℕ} {monitor : Monitor}
    (h : monitor ∈ Web.monitorsTo db fuel g) :
    monitor ∈ db.monitors ∧ monitor.deleted = false ∧ db.Belongs g monitor.id := by
  induction fuel generalizing g with
  | zero => simp [Web.monitorsTo] at h
  | succ fuel ih =>
    have hstep : ∀ (cs : List ℕ) (rows : List Monitor),
        monitor ∈ cs.foldl (fun rows c ↦ rows ++ (Web.monitorsTo db fuel c).drop rows.length) rows →
        monitor ∈ rows ∨ ∃ c ∈ cs, monitor ∈ Web.monitorsTo db fuel c := by
      intro cs
      induction cs with
      | nil => simp
      | cons c cs ihc =>
        intro rows hm
        rcases ihc _ hm with hm | ⟨d, hd, hm⟩
        · rcases List.mem_append.mp hm with hm | hm
          · exact .inl hm
          · exact .inr ⟨c, by simp, List.mem_of_mem_drop hm⟩
        · exact .inr ⟨d, by simp [hd], hm⟩
    rcases hstep _ _ h with hm | ⟨c, hc, hm⟩
    · obtain ⟨hmem, hids, hdel⟩ : monitor ∈ db.monitors ∧ monitor.id ∈ Web.monitorIds db g ∧
          monitor.deleted = false := by simpa using hm
      exact ⟨hmem, hdel, (Web.mem_monitorIds hdb).mp hids⟩
    · obtain ⟨hmem, hdel, d, hd, hlisted⟩ := ih hm
      exact ⟨hmem, hdel, d, (Below.child hc).trans hd, hlisted⟩

theorem Web.monitor_mem_iff (hdb : db.WellFormed) :
    (∃ monitor ∈ Web.monitors db g, monitor.id = m) ↔
      db.Belongs g m ∧ ∃ monitor ∈ db.monitors, monitor.id = m ∧ monitor.deleted = false := by
  constructor
  · rintro ⟨monitor, hm, rfl⟩
    obtain ⟨hmem, hdel, hb⟩ := Web.mem_monitorsTo hdb hm
    exact ⟨hb, monitor, hmem, rfl, hdel⟩
  · rintro ⟨hb, monitor, hmem, rfl, hdel⟩
    have hkeep : ∀ (cs : List ℕ) (rows : List Monitor), monitor ∈ rows →
        monitor ∈ cs.foldl (fun rows c ↦
          rows ++ (Web.monitorsTo db db.groups.length c).drop rows.length) rows := by
      intro cs
      induction cs with
      | nil => simp
      | cons c cs ih =>
        intro rows hr
        exact ih _ (List.mem_append_left _ hr)
    refine ⟨monitor, hkeep _ _ ?_, rfl⟩
    simpa [hdel] using ⟨hmem, (Web.mem_monitorIds hdb).mpr hb⟩

end ZoneMinder.Access
