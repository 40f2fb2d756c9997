import Mathlib.Data.Fintype.EquivFin
import ZoneMinder.Access.Groups
import ZoneMinder.WebFilter.Injection
import ZoneMinder.WebFilter.Predicates

namespace ZoneMinder.WebFilter

open Lib

/-- A page that finds the groups of a database by their ids. -/
def Web.withGroups (web : Web) (db : Access.Tables) : Web :=
  { web with
    monitorIds := fun text ↦
      if text ≠ "" ∧ text.toList.all Char.isDigit then
        Access.Web.monitorIds db (Nat.ofDigitChars 10 text.toList 0)
      else [] }

def idText (id : ℕ) : String := String.ofList (Nat.toDigits 10 id)

/-- The value of a term is a list of ids; an empty text is none. -/
def Lists (term : FilterTerm) (ids : List ℕ) : Prop :=
  values term.val = if ids = [] then [""] else ids.map idText

/-- The row of an event; the left side of a term is its monitor. -/
def eventRow (web : Web) (term : FilterTerm) (monitor : ℕ) : Row Expr ℤ where
  datum e :=
    if e = leftSql web term then some monitor
    else match e with
      | [.integer n] => some n
      | _ => none
  eq a b := a = b
  lt a b := a < b
  like a b := a = b
  regexp a b := a = b
  parity a b := a % 2 = b
  finds _ := false

/-- The operators that ask for the events of all other monitors. -/
def negatesGroup (op : Scalar) : Bool := op ∈ [.text "!=", .text "NOT IN", .text "![]", .text "IS NOT"]

def InGroups (db : Access.Tables) (ids : List ℕ) (monitor : ℕ) : Prop :=
  ∃ g ∈ ids, db.Belongs g monitor

/-- The term is true of an event by whether its monitor is in one of the groups. -/
def SelectsGroups (web : Web) (db : Access.Tables) (term : FilterTerm) (ids : List ℕ) : Prop :=
  ∀ monitor : ℕ, ∃ words, conditionWords (web.withGroups db) term = some words ∧
    ∃ selected : Bool, truth (eventRow web term monitor) words = some (.ofBool selected) ∧
      (selected = true ↔
        if negatesGroup term.op then ¬InGroups db ids monitor else InGroups db ids monitor)

/-- An element stands at a place that none of the lists before its own has. -/
def Uncovered (lists : List (List ℕ)) (m : ℕ) : Prop :=
  ∃ before list after, lists = before ++ list :: after ∧
    ∃ place, list[place]? = some m ∧ ∀ earlier ∈ before, earlier.length ≤ place

variable {web : Web} {db : Access.Tables} {term : FilterTerm} {ids : List ℕ} {monitor m : ℕ}

section Union

/-- An array union by position. -/
def unionFrom (ids : List ℕ) (lists : List (List ℕ)) : List ℕ :=
  lists.foldl (fun ids list ↦ ids ++ list.drop ids.length) ids

theorem mem_drop_iff {l : List ℕ} {n : ℕ} :
    m ∈ l.drop n ↔ ∃ place, l[place]? = some m ∧ n ≤ place := by
  rw [List.mem_iff_getElem?]
  constructor
  · rintro ⟨k, hk⟩
    rw [List.getElem?_drop] at hk
    exact ⟨n + k, hk, Nat.le_add_right n k⟩
  · rintro ⟨place, hplace, hle⟩
    refine ⟨place - n, ?_⟩
    rw [List.getElem?_drop, Nat.add_sub_cancel' hle]
    exact hplace

/-- Beyond what was there already, a union has what stands at a place beyond its end. -/
theorem mem_unionFrom (lists : List (List ℕ)) (ids : List ℕ) :
    m ∈ unionFrom ids lists ↔ m ∈ ids ∨
      ∃ before list after, lists = before ++ list :: after ∧
        ∃ place, list[place]? = some m ∧ ids.length ≤ place ∧
          ∀ earlier ∈ before, earlier.length ≤ place := by
  induction lists generalizing ids with
  | nil => simp [unionFrom]
  | cons list lists ih =>
    have hstep : unionFrom ids (list :: lists) = unionFrom (ids ++ list.drop ids.length) lists := rfl
    have hlength : (ids ++ list.drop ids.length).length = max ids.length list.length := by
      rw [List.length_append, List.length_drop]
      omega
    rw [hstep, ih, List.mem_append, mem_drop_iff, hlength]
    constructor
    · rintro ((hmem | ⟨place, hplace, hle⟩) | ⟨before, list', after, rfl, place, hplace, hle, hcover⟩)
      · exact .inl hmem
      · exact .inr ⟨[], list, lists, rfl, place, hplace, hle, by simp⟩
      · exact .inr ⟨list :: before, list', after, rfl, place, hplace, (le_max_left _ _).trans hle,
          List.forall_mem_cons.mpr ⟨(le_max_right _ _).trans hle, hcover⟩⟩
    · rintro (hmem | ⟨before, list', after, hlists, place, hplace, hle, hcover⟩)
      · exact .inl (.inl hmem)
      · cases before with
        | nil =>
          obtain ⟨rfl, -⟩ := List.cons_eq_cons.mp hlists
          exact .inl (.inr ⟨place, hplace, hle⟩)
        | cons first before =>
          obtain ⟨rfl, htail⟩ := List.cons_eq_cons.mp hlists
          rw [List.forall_mem_cons] at hcover
          exact .inr ⟨before, list', after, htail, place, hplace, max_le hle hcover.1, hcover.2⟩

theorem mem_unionFrom_nil (lists : List (List ℕ)) : m ∈ unionFrom [] lists ↔ Uncovered lists m := by
  simp [mem_unionFrom, Uncovered]

theorem groupIds_eq (web : Web) (texts : List String) :
    groupIds web texts = unionFrom [] (texts.map web.monitorIds) := by
  rw [groupIds, unionFrom, List.foldl_map]

end Union

theorem digits_idText (id : ℕ) : ∀ c ∈ (idText id).toList, c.isDigit := by
  intro c hc
  rw [idText, String.toList_ofList] at hc
  exact Nat.isDigit_of_mem_toDigits (by decide) (by decide) hc

theorem plain_of_digit {c : Char} (h : c.isDigit) :
    Filter.isQuote c = false ∧ Php.space c = false ∧ c ≠ ',' := by
  have hne (c' : Char) (hc' : c'.isDigit = false) : c ≠ c' := by
    rintro rfl
    rw [hc'] at h
    cases h
  refine ⟨?_, ?_, hne ',' rfl⟩
  · simp [Filter.isQuote, hne '"' rfl, hne '\'' rfl]
  · simp [Php.space, hne ' ' rfl, hne '\t' rfl, hne '\n' rfl, hne '\x0b' rfl, hne '\x0c' rfl,
      hne '\r' rfl]

theorem idText_ne_nil (id : ℕ) : (idText id).toList ≠ [] := by
  rw [idText, String.toList_ofList]
  exact Nat.toDigits_ne_nil

theorem withGroups_idText (web : Web) (db : Access.Tables) (id : ℕ) :
    (web.withGroups db).monitorIds (idText id) = Access.Web.monitorIds db id := by
  have hne : idText id ≠ "" := by
    intro h
    exact idText_ne_nil id (by rw [h]; rfl)
  simp only [Web.withGroups]
  rw [if_pos ⟨hne, List.all_eq_true.mpr (digits_idText id)⟩, idText, String.toList_ofList,
    Nat.ofDigitChars_ten_toDigits]

theorem withGroups_nil (web : Web) (db : Access.Tables) : (web.withGroups db).monitorIds "" = [] := by
  simp [Web.withGroups]

/-- Ids with commas between them, as a list from the page is joined. -/
theorem lists_joined (hval : term.val = .text (",".intercalate (ids.map idText))) :
    Lists term ids := by
  have htext : term.val.print.toList = [','].intercalate (ids.map (fun id ↦ (idText id).toList)) := by
    rw [hval, Scalar.print, String.toList_intercalate, List.map_map]
    rfl
  rw [Lists, values, htext]
  cases ids with
  | nil => rfl
  | cons id ids =>
    have hplain : ∀ l ∈ (id :: ids).map (fun id ↦ (idText id).toList), ',' ∉ l := by
      intro l hl hmem
      obtain ⟨n, -, rfl⟩ := List.mem_map.mp hl
      exact (plain_of_digit (digits_idText n ',' hmem)).2.2 rfl
    have hstrip : Filter.stripQuotes
        ([','].intercalate ((id :: ids).map (fun id ↦ (idText id).toList))) =
          [','].intercalate ((id :: ids).map (fun id ↦ (idText id).toList)) := by
      obtain ⟨c, cs, hid⟩ := List.exists_cons_of_ne_nil (idText_ne_nil id)
      have hquote : Filter.isQuote c = false := by
        exact (plain_of_digit (digits_idText id c (by rw [hid]; exact List.mem_cons_self))).1
      have hcons : ∃ rest, [','].intercalate ((id :: ids).map (fun id ↦ (idText id).toList)) =
          c :: rest := by
        cases ids with
        | nil => exact ⟨cs, by simp [hid]⟩
        | cons next ids => exact ⟨_, by rw [List.map_cons, List.map_cons, hid]; rfl⟩
      obtain ⟨rest, hrest⟩ := hcons
      rw [hrest, Filter.stripQuotes, if_neg (by simp [hquote])]
    have hfields : ∀ l ∈ (id :: ids).map (fun id ↦ (idText id).toList),
        l.rdropWhile (fun c ↦ Filter.isQuote c || Php.space c) = l := by
      intro l hl
      obtain ⟨n, -, rfl⟩ := List.mem_map.mp hl
      rw [List.rdropWhile_eq_self_iff]
      intro hne
      have hlast := plain_of_digit (digits_idText n _ (List.getLast_mem hne))
      simp [hlast.1, hlast.2.1]
    rw [hstrip, Filter.splitFields, List.splitOn_intercalate ',' hplain (by simp)]
    generalize hl : (id :: ids).map (fun id ↦ (idText id).toList) = l at hfields
    have hne : l ≠ [] := by
      rintro rfl
      cases hl
    rw [List.map_congr_left fun field hfield ↦ hfields field (List.mem_of_mem_dropLast hfield),
      List.map_id', List.getLast?_eq_some_getLast hne, Option.toList_some,
      List.dropLast_concat_getLast, ← hl]
    simp

theorem truth_group (hattr : term.attr = "Group") :
    ∃ words, conditionWords web term = some words ∧
      truth (eventRow web term monitor) words =
        some (.ofBool (monitor ∈ groupIds web (values term.val))) := by
  refine ⟨_, conditionWords_group hattr, ?_⟩
  rw [truth_of_isOperand (isOperand_atom _)]
  have hinteger (id : ℕ) : (eventRow web term monitor).datum [.integer (id : ℤ)] = some (id : ℤ) := by
    have hne : [Piece.integer (id : ℤ)] ≠ leftSql web term := by
      simp [leftSql, sqlAttr, hattr, silentAttr]
    simp [eventRow, hne]
  have hleft : (eventRow web term monitor).datum (leftSql web term) = some (monitor : ℤ) := by
    simp [eventRow]
  have hvalues : (sqlValues web term).map (fun value ↦
      liftTernary (eventRow web term monitor).eq (some (monitor : ℤ))
        ((eventRow web term monitor).datum value)) =
      (groupIds web (values term.val)).map (fun id ↦ .ofBool (monitor = id)) := by
    have hids : sqlValues web term =
        (groupIds web (values term.val)).map (fun id : ℕ ↦ [.integer (id : ℤ)]) := by
      rw [sqlValues, if_pos hattr, bind_pure_comp, List.map_eq_map, List.map_map]
      rfl
    rw [hids, List.map_map]
    apply List.map_congr_left
    intro id _
    have hsame : (eventRow web term monitor).eq (monitor : ℤ) (id : ℤ) = decide (monitor = id) := by
      simp [eventRow]
    simp only [Function.comp_apply, hinteger, liftTernary, hsame]
  rw [Atom.truth, negatedIf, if_neg (by simp), hleft, hvalues, Ternary.disjs_map_ofBool]
  congr 2
  rw [Bool.eq_iff_iff, List.any_eq_true]
  simp

/-- What the term has of the groups: a monitor that the union of their lists keeps. -/
theorem selected_iff (hattr : term.attr = "Group") (hlists : Lists term ids) :
    ∃ words, conditionWords (web.withGroups db) term = some words ∧ ∃ selected : Bool,
      truth (eventRow web term monitor) words = some (.ofBool selected) ∧
        (selected = true ↔ Uncovered (ids.map (Access.Web.monitorIds db)) monitor) := by
  obtain ⟨words, hwords, htruth⟩ := @truth_group (web.withGroups db) _ monitor hattr
  refine ⟨words, hwords, _, htruth, ?_⟩
  rw [decide_eq_true_eq, groupIds_eq, mem_unionFrom_nil, hlists]
  split_ifs with hnil
  · rw [hnil, List.map_singleton, withGroups_nil]
    constructor
    · rintro ⟨before, list, after, hlist, place, hplace, -⟩
      cases before with
      | nil =>
        obtain ⟨rfl, -⟩ := List.cons_eq_cons.mp hlist
        simp at hplace
      | cons first before => simp at hlist
    · rintro ⟨before, list, after, hlist, -⟩
      simp at hlist
  · rw [List.map_map]
    have hmap : (web.withGroups db).monitorIds ∘ idText = Access.Web.monitorIds db :=
      funext (withGroups_idText web db)
    rw [hmap]

theorem uncovered_mem {lists : List (List ℕ)} (h : Uncovered lists m) : ∃ l ∈ lists, m ∈ l := by
  obtain ⟨before, list, after, rfl, place, hplace, -⟩ := h
  exact ⟨list, by simp, List.mem_of_getElem? hplace⟩

/-- No list of groups has all monitors there may be. -/
theorem exists_not_inGroups (hdb : db.WellFormed) (ids : List ℕ) : ∃ m, ¬InGroups db ids m := by
  obtain ⟨m, hm⟩ :=
    Infinite.exists_notMem_finset (ids.flatMap (Access.Web.monitorIds db)).toFinset
  refine ⟨m, ?_⟩
  rintro ⟨g, hg, hbelongs⟩
  rw [List.mem_toFinset] at hm
  exact hm (List.mem_flatMap.mpr ⟨g, hg, (Access.Web.mem_monitorIds hdb).mpr hbelongs⟩)

theorem selectsGroups_iff (hattr : term.attr = "Group") (hlists : Lists term ids)
    (hdb : db.WellFormed) :
    SelectsGroups web db term ids ↔
      negatesGroup term.op = false ∧ ∀ g ∈ ids, ∀ m ∈ Access.Web.monitorIds db g,
        Uncovered (ids.map (Access.Web.monitorIds db)) m := by
  have hsub {m : ℕ} (h : Uncovered (ids.map (Access.Web.monitorIds db)) m) : InGroups db ids m := by
    obtain ⟨l, hl, hm⟩ := uncovered_mem h
    obtain ⟨g, hg, rfl⟩ := List.mem_map.mp hl
    exact ⟨g, hg, (Access.Web.mem_monitorIds hdb).mp hm⟩
  have hselects : SelectsGroups web db term ids ↔ ∀ monitor,
      (Uncovered (ids.map (Access.Web.monitorIds db)) monitor ↔
        if negatesGroup term.op then ¬InGroups db ids monitor else InGroups db ids monitor) := by
    apply forall_congr'
    intro monitor
    obtain ⟨words, hwords, selected, htruth, hselected⟩ :=
      @selected_iff web db _ _ monitor hattr hlists
    rw [← hselected]
    constructor
    · rintro ⟨words', hwords', selected', htruth', hselected'⟩
      obtain rfl := Option.some.inj (hwords.symm.trans hwords')
      have hsame : selected = selected' :=
        Ternary.ofBool_injective (Option.some.inj (htruth.symm.trans htruth'))
      rw [hsame]
      exact hselected'
    · intro h
      exact ⟨words, hwords, selected, htruth, h⟩
  rw [hselects]
  cases hnegates : negatesGroup term.op with
  | true =>
    simp only [reduceCtorEq, false_and, iff_false, if_true]
    intro h
    obtain ⟨m, hm⟩ := exists_not_inGroups hdb ids
    exact hm (hsub ((h m).mpr hm))
  | false =>
    simp only [true_and, Bool.false_eq_true, if_false]
    constructor
    · intro h g hg m hm
      exact (h m).mpr ⟨g, hg, (Access.Web.mem_monitorIds hdb).mp hm⟩
    · intro h monitor
      refine ⟨hsub, ?_⟩
      rintro ⟨g, hg, hbelongs⟩
      exact h g hg monitor ((Access.Web.mem_monitorIds hdb).mpr hbelongs)

/-- A group with one below it, and another one. -/
def threeGroups : Access.Tables where
  groups := [⟨1, ['A'], none⟩, ⟨2, ['B'], some 1⟩, ⟨3, ['C'], none⟩]
  groupsMonitors := [(1, 5), (2, 6), (3, 7)]
  monitors := [⟨5, false⟩, ⟨6, false⟩, ⟨7, false⟩]

theorem threeGroups_wellFormed : threeGroups.WellFormed where
  groupIds := by decide
  parents := by simp [threeGroups, Access.Tables.groupIds]
  listedGroups := by decide
  monitorIds := by decide
  acyclic := by
    intro a b hb hbelow
    obtain ⟨rfl, rfl⟩ : a = 1 ∧ b = 2 := by
      obtain ⟨group, hgroup, rfl⟩ := List.mem_map.mp hb
      obtain ⟨hmem, hparent⟩ := List.mem_filter.mp hgroup
      simp only [threeGroups, List.mem_cons, List.not_mem_nil, or_false] at hmem
      rcases hmem with rfl | rfl | rfl <;> simp_all
    rcases Forest.below_iff.mp hbelow with h | ⟨c, hc, -⟩
    · cases h
    · simp [Access.Tables.children, threeGroups] at hc

def groupTerm (op val : String) : FilterTerm := construct plainWeb (oneTerm "Group" op (.text val))

theorem selectsGroups_one : SelectsGroups plainWeb threeGroups (groupTerm "=" "1") [1] :=
  (selectsGroups_iff rfl (lists_joined (by decide +kernel)) threeGroups_wellFormed).mpr
    ⟨by decide, by
      intro g hg m hm
      obtain rfl := List.mem_singleton.mp hg
      obtain ⟨place, hplace⟩ := List.mem_iff_getElem?.mp hm
      exact ⟨[], _, [], rfl, place, hplace, by simp⟩⟩

/-- The monitor of the second group is nowhere to be found. -/
theorem not_selectsGroups_two : ¬SelectsGroups plainWeb threeGroups (groupTerm "=" "1,3") [1, 3] := by
  intro h
  obtain ⟨words, hwords, selected, htruth, hselected⟩ := h 7
  obtain ⟨words', hwords', htruth'⟩ :=
    @truth_group (plainWeb.withGroups threeGroups) (groupTerm "=" "1,3") 7 rfl
  obtain rfl := Option.some.inj (hwords.symm.trans hwords')
  have hin : InGroups threeGroups [1, 3] 7 := ⟨3, by decide, 3, Forest.Below.refl _ _, by decide⟩
  have hlost : 7 ∉ groupIds (plainWeb.withGroups threeGroups) (values (groupTerm "=" "1,3").val) := by
    decide +kernel
  have hsame := Ternary.ofBool_injective (Option.some.inj (htruth.symm.trans htruth'))
  rw [hsame, decide_eq_true_eq] at hselected
  exact hlost (hselected.mpr hin)

end ZoneMinder.WebFilter
