import ZoneMinder.Access.Permissions
import ZoneMinder.Php
import ZoneMinder.Access.Visible

namespace ZoneMinder.Access

open Lib Forest Tables

/-- How the text of a request field reads as a number: where it is compared with an id in a
query, where an integer column takes it, and where the page compares it loosely with a number or
with another text. -/
structure Coercion where
  sqlId : List Char → Option ℕ
  columnValue : List Char → Option ℕ
  looseEq : List Char → ℕ → Bool
  looseText : List Char → List Char → Bool
  looseEq_column : ∀ text n k, looseEq text n → columnValue text = some k → k = n

/-- A value of a request is a text, or several. -/
inductive Field
  | text (value : List Char)
  | array (values : List (List Char))
  deriving DecidableEq

/-- `== ''`. -/
def Field.isBlank : Field → Bool
  | .text value => value.isEmpty
  | .array _ => false

/-- As a column is given it; an array is imploded. -/
def Field.stored : Field → List Char
  | .text value => value
  | .array values => [','].intercalate values

/-- What an array in the place of an id sets on the group object. -/
structure GroupRow where
  id : Option (List Char)
  parentId : Option Field
  monitorIds : Option (List ℕ)
  deriving DecidableEq

/-- The object says that it has an id, whether there is such a group or not. -/
def GroupRow.named (row : GroupRow) : Bool := !Php.isEmpty (row.id.getD [])

inductive Gid
  | text (gid : List Char)
  | row (row : GroupRow)
  deriving DecidableEq

/-- The fields of a save request; one that is not sent is empty. -/
structure SaveRequest where
  gid : Gid
  name : Field
  parentId : Field
  monitorIds : Option (List ℕ)

namespace GroupSave

def nameChar (c : Char) : Bool := c.isAlphanum || c ∈ ['_', '-', '.', '(', ')', ':', '/', ' ']

/-- The name as it is stored: trimmed, and without the characters the filter drops. Several names
are not filtered. -/
def filterName : Field → List Char
  | .text name => (Php.trim name).filter nameChar
  | .array names => (Field.array names).stored

variable (c : Coercion) (db : Tables) (user : User)

/-- Only digits are looked up, and any other text makes a group without an id. An array is the group
itself, with the id that it has. -/
def findGroup : Gid → Option Group
  | .text gid =>
    if Php.isEmpty gid then none
    else if gid.all Char.isDigit then db.groups.find? (fun group ↦ c.sqlId gid = some group.id)
    else none
  | .row row =>
    if row.named then
      db.groups.find? (fun group ↦ c.sqlId (row.id.getD []) = some group.id)
    else none

def newIds (request : SaveRequest) : List ℕ := request.monitorIds.getD []

def arrayDiff (a b : List ℕ) : List ℕ := a.filter (· ∉ b)

/-- The parent of the request is not that of the table. -/
def columnDiffers (new : Field) : Option ℕ → Bool
  | none => !new.isBlank
  | some n =>
    match new with
    | .text text => text.isEmpty || !c.looseEq text n
    | .array _ => true

/-- The parent of the request is not that of the array. -/
def fieldDiffers (new : Field) : Option Field → Bool
  | none => !new.isBlank
  | some (.text old) =>
    match new with
    | .text text => if text.isEmpty then !old.isEmpty else !c.looseText text old
    | .array _ => true
  | some (.array olds) =>
    match new with
    | .text _ => true
    | .array texts =>
      !(texts.length = olds.length && (texts.zip olds).all fun (text, old) ↦ c.looseText text old)

/-- The group has an id, and the page takes its parent for another one. -/
def parentDiffers (request : SaveRequest) : Bool :=
  match request.gid, findGroup c db request.gid with
  | .row row, _ => row.named && fieldDiffers c request.parentId row.parentId
  | .text _, some group => columnDiffers c request.parentId group.parentId
  | .text _, none => false

/-- The monitors at or below the group, unless the array says which. -/
def monitorIds (gid : Gid) : List ℕ :=
  let found := (findGroup c db gid).elim [] fun group ↦ Web.monitorIds db group.id
  match gid with
  | .text _ => found
  | .row row => row.monitorIds.getD found

/-- The monitors that go into or out of a group: where the parent changes, all below it. -/
def moved (request : SaveRequest) : List ℕ :=
  let old := (findGroup c db request.gid).elim [] fun group ↦ db.listed group.id
  arrayDiff old (newIds request) ++ arrayDiff (newIds request) old ++
    if parentDiffers c db request then monitorIds c db request.gid else []

/-- Ids that are not monitors are ignored. -/
def canEditMembership (ids : List ℕ) : Bool :=
  ids.all (fun mid ↦
    !db.monitors.any (fun monitor ↦ monitor.id = mid) || Web.editableMonitor db user mid)

def passes (request : SaveRequest) : Bool :=
  Web.canEditGroups user && canEditMembership db user (moved c db request)

/-- The id of the row that is written. Of an array, the column has to take the text for the id of
the group; with an id that no group has, no row is written. -/
def writtenId (newId : ℕ) (gid : Gid) : Option ℕ :=
  match gid, findGroup c db gid with
  | .text _, group => some ((group.map Group.id).getD newId)
  | .row row, some group => (c.columnValue (row.id.getD [])).filter (· = group.id)
  | .row row, none => if row.named then none else some newId

/-- The parent the row will hold, unless a key refuses it. A new row may name itself. -/
def storedParent (newId : ℕ) (request : SaveRequest) : Option (Option ℕ) :=
  match writtenId c db newId request.gid with
  | none => none
  | some _ =>
    if request.parentId.isBlank then some none
    else
      match c.columnValue request.parentId.stored with
      | none => none
      | some k =>
        if k ∈ db.groupIds ∨ k = newId ∧ (findGroup c db request.gid).isNone then some (some k)
        else none

/-- The group's row, and the id it has afterwards. The database may refuse the row. -/
def saveRow (newId : ℕ) (accepted : Bool) (request : SaveRequest) : List Group × Option ℕ :=
  let group := findGroup c db request.gid
  match accepted, storedParent c db newId request, group with
  | true, some parent, some group =>
    (db.groups.map (fun row ↦
      if row.id = group.id then ⟨row.id, filterName request.name, parent⟩ else row), some group.id)
  | true, some parent, none =>
    (db.groups ++ [⟨newId, filterName request.name, parent⟩], some newId)
  | _, _, group => (db.groups, group.bind fun _ ↦ writtenId c db newId request.gid)

/-- The delete goes by the text of the request, not by the id of the group. An array is no id. -/
def deletedId (request : SaveRequest) : Option ℕ :=
  match request.gid with
  | .text gid => if Php.isEmpty gid then none else c.sqlId gid
  | .row _ => none

def insertedRows (id : Option ℕ) (request : SaveRequest) : List (ℕ × ℕ) :=
  match id with
  | none => []
  | some id =>
    ((newIds request).filter (fun mid ↦ db.monitors.any (fun monitor ↦ monitor.id = mid))).map
      (fun mid ↦ (id, mid))

def save (newId : ℕ) (accepted : Bool) (request : SaveRequest) : Tables :=
  if passes c db user request then
    { db with
      groups := (saveRow c db newId accepted request).1
      groupsMonitors :=
        db.groupsMonitors.filter (fun row ↦ deletedId c request ≠ some row.1) ++
          insertedRows db (saveRow c db newId accepted request).2 request }
  else db

end GroupSave

open GroupSave

variable {c : Coercion} {db : Tables} {user : User} {request : SaveRequest} {newId d g m : ℕ}
  {accepted : Bool} {group : Group}

theorem save_of_passes (h : passes c db user request) :
    save c db user newId accepted request =
      { db with
        groups := (saveRow c db newId accepted request).1
        groupsMonitors :=
          db.groupsMonitors.filter (fun row ↦ deletedId c request ≠ some row.1) ++
            insertedRows db (saveRow c db newId accepted request).2 request } := by
  rw [save, if_pos h]

/-- A group that is found by a text is the one whose rows are deleted. -/
theorem deletedId_of_text {gid : List Char} (hgid : request.gid = .text gid)
    (h : findGroup c db request.gid = some group) : deletedId c request = some group.id := by
  rw [hgid, findGroup] at h
  unfold deletedId
  rw [hgid]
  split_ifs at h with h₁ h₂
  obtain hid : c.sqlId gid = some group.id := by simpa using List.find?_some h
  dsimp only
  rw [if_neg h₁, hid]

theorem findGroup_eq_some (h : findGroup c db request.gid = some group) :
    group ∈ db.groups ∧ ∀ id, deletedId c request = some id → id = group.id := by
  cases hgid : request.gid with
  | text gid =>
    refine ⟨?_, fun id hdel ↦ ?_⟩
    · rw [hgid, findGroup] at h
      split_ifs at h
      exact List.mem_of_find?_eq_some h
    · rw [deletedId_of_text hgid h] at hdel
      exact (Option.some.inj hdel).symm
  | row row =>
    rw [hgid, findGroup] at h
    split_ifs at h
    refine ⟨List.mem_of_find?_eq_some h, fun id hdel ↦ ?_⟩
    rw [deletedId, hgid] at hdel
    cases hdel

/-- Only the edges into the saved group change. -/
theorem mem_children_save {a b : ℕ} (h : passes c db user request)
    (hb : ∀ group, findGroup c db request.gid = some group → b ≠ group.id)
    (hnew : findGroup c db request.gid = none → b ≠ newId) :
    b ∈ (save c db user newId accepted request).children a ↔ b ∈ db.children a := by
  rw [save_of_passes h]
  unfold Tables.children saveRow
  cases hg : findGroup c db request.gid with
  | none =>
    have hn : newId ≠ b := (hnew hg).symm
    cases accepted <;> cases hp : storedParent c db newId request <;> simp [List.filter_append]
    intro hpar hid
    exact absurd hid hn
  | some group =>
    have hne : b ≠ group.id := hb group hg
    cases accepted <;> cases hp : storedParent c db newId request <;> try rfl
    simp only [List.mem_map, List.mem_filter, decide_eq_true_eq]
    constructor
    · rintro ⟨row, ⟨⟨old, hold, rfl⟩, hpar⟩, hid⟩
      by_cases he : old.id = group.id
      · rw [if_pos he] at hid
        exact absurd (hid.symm.trans he) hne
      · rw [if_neg he] at hid hpar
        exact ⟨old, ⟨hold, hpar⟩, hid⟩
    · rintro ⟨row, ⟨hrow, hpar⟩, hid⟩
      have he : row.id ≠ group.id := by rwa [hid]
      exact ⟨row, ⟨⟨row, hrow, by rw [if_neg he]⟩, hpar⟩, hid⟩

/-- The group `g` is that parent or above it, on a way that does not go through `k`. -/
def Reaches (db : Tables) (k : ℕ) (parent : Option ℕ) (g : ℕ) : Prop :=
  ∃ p ∈ parent, Below (db.apart k) g p

theorem save_of_refused (h : passes c db user request = false) :
    save c db user newId accepted request = db := by
  simp [save, h]

/-- Digits, with a fraction of zeros or without one. -/
def decimalId (text : List Char) : Option ℕ :=
  let whole := text.takeWhile Char.isDigit
  let fraction := text.dropWhile Char.isDigit
  if whole ≠ [] ∧ (fraction = [] ∨ fraction.head? = some '.' ∧ fraction.tail.all (· = '0')) then
    some (whole.foldl (fun n digit ↦ 10 * n + (digit.toNat - '0'.toNat)) 0)
  else none

def decimal : Coercion where
  sqlId := decimalId
  columnValue := decimalId
  looseEq text n := decimalId text = some n
  looseText text text' := text = text'
  looseEq_column := by
    intro text n k h hk
    rw [hk] at h
    simpa using h

/-- May edit groups, and view monitors without editing them. -/
def groupEditor : User :=
  ⟨⟨⟨.none, .none, .none, .view, .edit, .none⟩, [], [], List.nodup_nil, List.nodup_nil⟩, none⟩

/-- A group that is said to be under 7 already goes there. -/
example :
    let db : Tables := ⟨[⟨5, ['A'], none⟩, ⟨7, ['C'], none⟩], [(5, 9)], [⟨9, false⟩]⟩
    let request : SaveRequest :=
      ⟨.row ⟨some ['5'], some (.text ['7']), none⟩, .text ['A'], .text ['7'], some [9]⟩
    passes decimal db groupEditor request ∧
      (save decimal db groupEditor 8 true request).children 7 = [5] := by decide

end ZoneMinder.Access
