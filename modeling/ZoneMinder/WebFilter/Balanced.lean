import ZoneMinder.Lib.Nesting
import ZoneMinder.WebFilter.Injection

namespace ZoneMinder.WebFilter

open Lib Lib.Literals

/-- The brackets of a term's SQL are all in the text that the code fixes. -/
def Piece.codeText : Piece → List Char
  | code text => text.toList
  | _ => []

def codes (pieces : List Piece) : List Char := pieces.flatMap Piece.codeText

def codeNest (pieces : List Piece) : Nest := nest '(' ')' (codes pieces)

/-- What is opened is closed again, and nothing else is. -/
structure Level (pieces : List Piece) : Prop where
  nest_eq : codeNest pieces = 1

variable {web : Web} {term : FilterTerm} {pieces pieces' : List Piece} {piece : Piece}
  {column separator : String} {value operator : List Piece} {values parts : List (List Piece)}

@[simp] theorem codeNest_nil : codeNest [] = 1 := rfl

@[simp] theorem codeNest_cons :
    codeNest (piece :: pieces) = nest '(' ')' piece.codeText * codeNest pieces := nest_append

@[simp] theorem codeNest_append :
    codeNest (pieces ++ pieces') = codeNest pieces * codeNest pieces' := by
  simp [codeNest, codes]

theorem nest_codeText_code (text : String) :
    nest '(' ')' (Piece.code text).codeText = nest '(' ')' text.toList := rfl

@[simp] theorem nest_codeText_listed (text : String) :
    nest '(' ')' (Piece.listed text).codeText = 1 := rfl

@[simp] theorem nest_codeText_name (text : String) :
    nest '(' ')' (Piece.name text).codeText = 1 := rfl

@[simp] theorem nest_codeText_keyword (text : String) :
    nest '(' ')' (Piece.keyword text).codeText = 1 := rfl

@[simp] theorem nest_codeText_integer (n : ℤ) : nest '(' ')' (Piece.integer n).codeText = 1 := rfl

@[simp] theorem nest_codeText_quoted (text : String) :
    nest '(' ')' (Piece.quoted text).codeText = 1 := rfl

@[simp] theorem nest_codeText_date (text : String) :
    nest '(' ')' (Piece.date text).codeText = 1 := rfl

theorem Level.nil : Level [] := ⟨rfl⟩

theorem Level.append (h : Level pieces) (h' : Level pieces') : Level (pieces ++ pieces') := by
  constructor
  rw [codeNest_append, h.nest_eq, h'.nest_eq, one_mul]

theorem Level.cons (h : nest '(' ')' piece.codeText = 1) (h' : Level pieces) :
    Level (piece :: pieces) := by
  constructor
  rw [codeNest_cons, h, h'.nest_eq, one_mul]

theorem Level.ite {c : Prop} [Decidable c] (h : Level pieces) (h' : Level pieces') :
    Level (if c then pieces else pieces') := by
  split_ifs
  · exact h
  · exact h'

theorem Level.code {text : String} (h : nest '(' ')' text.toList = 1) : Level [.code text] :=
  .cons h .nil

/-- Pieces between a text that opens a bracket and one that closes it. -/
theorem Level.between {before after : String} (hbefore : nest '(' ')' before.toList = ⟨0, 1⟩)
    (hafter : nest '(' ')' after.toList = ⟨1, 0⟩) (h : Level pieces) :
    Level ([.code before] ++ pieces ++ [.code after]) := by
  have hpair : (⟨0, 1⟩ * ⟨1, 0⟩ : Nest) = 1 := rfl
  constructor
  rw [codeNest_append, codeNest_append, h.nest_eq, mul_one, codeNest_cons, codeNest_cons, nest_codeText_code,
    nest_codeText_code, hbefore, hafter, codeNest_nil, mul_one, mul_one, hpair]

theorem Level.joined (hseparator : nest '(' ')' separator.toList = 1)
    (h : ∀ part ∈ parts, Level part) : Level (joined separator parts) := by
  have hflatten : ∀ parts : List (List Piece), (∀ part ∈ parts, Level part) →
      Level parts.flatten := by
    intro parts hparts
    induction parts with
    | nil => exact .nil
    | cons part parts ih =>
      obtain ⟨hpart, hparts⟩ := List.forall_mem_cons.mp hparts
      exact hpart.append (ih hparts)
  apply hflatten
  intro part hpart
  rcases Lib.mem_intersperse hpart with hpart | hpart
  · exact h part hpart
  · rw [hpart]
    exact .code hseparator

theorem Level.map {f : List Piece → List Piece} (h : ∀ value ∈ values, Level (f value)) :
    ∀ part ∈ values.map f, Level part := by
  intro part hpart
  obtain ⟨value, hvalue, rfl⟩ := List.mem_map.mp hpart
  exact h value hvalue

theorem Level.headD (h : ∀ value ∈ values, Level value) : Level (values.headD []) := by
  cases values with
  | nil => exact .nil
  | cons value values => exact h value List.mem_cons_self

theorem sqlValue_level (value : String) : Level (sqlValue web term value) := by
  have hdays : Level ([.code "to_days("] ++ [.keyword value] ++ [.code ")"]) :=
    .between (by decide) (by decide) ⟨rfl⟩
  have hdate (before : String) (h : nest '(' ')' before.toList = ⟨0, 1⟩) :
      Level ([.code before] ++ [.date (web.dateTime value)] ++ [.code ")"]) :=
    .between h (by decide) ⟨rfl⟩
  have hzone : Level ([.code "(SELECT * FROM Stats WHERE EventId=E.Id AND ZoneId="] ++
      [.integer (web.intval value)] ++ [.code " AND Score > 0 LIMIT 1)"]) :=
    .between (by decide +kernel) (by decide +kernel) ⟨rfl⟩
  rw [sqlValue]
  repeat' apply Level.ite
  all_goals first
    | exact hzone | exact hdays | exact hdate "to_days(" (by decide)
    | exact hdate "extract(hour_second from " (by decide) | exact ⟨rfl⟩

theorem sqlValues_level : ∀ value ∈ sqlValues web term, Level value := by
  intro value hvalue
  rw [sqlValues] at hvalue
  split_ifs at hvalue
  · obtain ⟨id, -, rfl⟩ := List.mem_map.mp hvalue
    exact ⟨rfl⟩
  · obtain ⟨text, -, rfl⟩ := List.mem_map.mp hvalue
    exact sqlValue_level text

theorem sqlOperator_level : Level (sqlOperator term) := by
  have hcode : ∀ text ∈ [" IN ", " EXISTS ", " regexp ", " not regexp ", " NOT IN ", " % 2 = ",
      " IS ", " = ", " % 2 != ", " IS NOT ", " != "], Level [.code text] := by
    intro text htext
    have hplain : ∀ text ∈ [" IN ", " EXISTS ", " regexp ", " not regexp ", " NOT IN ",
        " % 2 = ", " IS ", " = ", " % 2 != ", " IS NOT ", " != "],
        nest '(' ')' text.toList = 1 := by
      decide
    exact .code (hplain text htext)
  rw [sqlOperator]
  refine .ite (hcode _ (by simp)) (.ite (hcode _ (by simp)) (.ite .nil ?_))
  cases term.op with
  | yes => exact ⟨rfl⟩
  | integer n => exact .nil
  | no => exact .nil
  | text op =>
    repeat' apply Level.ite
    all_goals exact ⟨rfl⟩

theorem sqlAttr_level : Level (sqlAttr web term) := by
  rw [sqlAttr]
  repeat' apply Level.ite
  all_goals first
    | exact .code (by decide +kernel) | exact .cons (nest_codeText_name _) .nil
    | exact .cons (by decide +kernel) (.cons rfl .nil)
    | exact .cons (by decide +kernel) (.cons rfl (.cons (by decide +kernel) .nil))
    | exact .cons rfl (.cons (by decide +kernel) (.cons rfl .nil))

theorem leftSql_level : Level (leftSql web term) :=
  sqlAttr_level.append (.ite .nil (.cons (by decide) (.cons (nest_codeText_name _) .nil)))

theorem dateBounds_level (h : Level value) :
    Level (dateBounds web value).1 ∧ Level (dateBounds web value).2 := by
  unfold dateBounds
  split
  · split_ifs
    · refine ⟨h, h.append (.code (by decide)) ⟩
    · exact ⟨h, h⟩
  · split
    · exact ⟨⟨rfl⟩, ⟨rfl⟩⟩
    · exact ⟨h, h⟩
  · exact ⟨h, h⟩

section DateRange

variable (hcolumn : nest '(' ')' column.toList = 1)
include hcolumn

theorem nest_column (before after : String) :
    nest '(' ')' (before ++ column ++ after).toList =
      nest '(' ')' before.toList * nest '(' ')' after.toList := by
  rw [String.toList_append, String.toList_append, nest_append, nest_append, hcolumn, mul_one]

theorem within_level (h : Level value) : Level (within web column value) := by
  obtain ⟨hlow, hhigh⟩ := @dateBounds_level web _ h
  have hge : Level [.code (column ++ " >= ")] := .code (nest_column hcolumn "" " >= ")
  have hand : Level [.code (" AND " ++ column ++ " < ")] :=
    .code (nest_column hcolumn " AND " " < ")
  exact ((hge.append hlow).append hand).append hhigh

theorem outside_level (h : Level value) : Level (outside web column value) := by
  obtain ⟨hlow, hhigh⟩ := @dateBounds_level web _ h
  have hor : Level [.code (" OR " ++ column ++ " >= ")] :=
    .code (nest_column hcolumn " OR " " >= ")
  have hopening : nest '(' ')' ("(" ++ column ++ " < ").toList = ⟨0, 1⟩ :=
    nest_column hcolumn "(" " < "
  have hclosing : nest '(' ')' ")".toList = ⟨1, 0⟩ := by decide
  have hbounds := Level.between hopening hclosing ((hlow.append hor).append hhigh)
  simpa [outside] using hbounds

theorem dateRangeSql_level (op : Scalar) (h : ∀ value ∈ values, Level value) :
    Level (dateRangeSql web column op values) := by
  have hvalue := Level.headD h
  obtain ⟨hlow, hhigh⟩ := @dateBounds_level web _ hvalue
  have hwithin := @within_level web _ _ hcolumn hvalue
  have houtside := @outside_level web _ _ hcolumn hvalue
  have hafter (after : String) (hfree : nest '(' ')' after.toList = 1) :
      Level [.code (column ++ after)] := by
    have hnest := nest_column hcolumn "" after
    rw [hfree] at hnest
    exact .code hnest
  have hdays : Level [.code ("to_days(" ++ column ++ ") ")] :=
    .code (nest_column hcolumn "to_days(" ") ")
  rw [dateRangeSql]
  refine .ite (hafter " IS NULL" (by decide)) (.ite (hafter " IS NOT NULL" (by decide)) (.ite ?_
    (.ite ?_ (.ite hwithin (.ite houtside (.ite ?_ (.ite ?_ (.ite ?_ (.ite ?_ (.ite hwithin
      (.ite houtside ?_)))))))))))
  · refine .between (by decide) (by decide) (.joined (by decide) (.map ?_))
    intro value hvalue
    exact .between (by decide) (by decide) (within_level hcolumn (h value hvalue))
  · refine .between (by decide) (by decide) (.joined (by decide) (.map ?_))
    intro value hvalue
    exact outside_level hcolumn (h value hvalue)
  · exact (hafter " >= " (by decide)).append hhigh
  · exact (hafter " >= " (by decide)).append hlow
  · exact (hafter " < " (by decide)).append hlow
  · exact (hafter " < " (by decide)).append hhigh
  · exact (hdays.append (.cons rfl (.code (by decide)))).append hvalue

end DateRange

theorem stillRunning_level (hoperator : Level operator) (hvalue : Level value) :
    Level (stillRunning operator value) := by
  have hfloor : codeNest [.code "(E.StartDateTime >= DATE_SUB("] = ⟨0, 2⟩ := by decide +kernel
  have hend : codeNest
      [.code ", INTERVAL 1 DAY) AND (E.EndDateTime IS NULL OR E.EndDateTime"] = ⟨1, 1⟩ := by
    decide +kernel
  have heffective : codeNest [.code (") AND " ++ effectiveEndSql)] = ⟨1, 0⟩ := by decide +kernel
  have hclosing : codeNest [.code ")"] = ⟨1, 0⟩ := by decide
  constructor
  simp only [stillRunning, codeNest_append, hoperator.nest_eq, hvalue.nest_eq, hfloor, hend,
    heffective, hclosing, mul_one]
  decide

theorem comparisonSql_level (hoperator : Level operator) (h : ∀ value ∈ values, Level value) :
    Level (comparisonSql web term operator values) := by
  have hleft : Level (leftSql web term ++ operator) := leftSql_level.append hoperator
  have htagged (negated : Bool) : Level (tagged negated) := by
    cases negated <;> exact .code (by decide +kernel)
  rw [comparisonSql]
  refine .ite ?_ (.ite (htagged _) (.ite (htagged _) (.ite ?_ ?_)))
  · refine .between (by decide) (by decide) (.joined (by decide) (.map ?_))
    intro value hvalue
    exact hleft.append (h value hvalue)
  · exact hleft.append (.ite (.code (by decide +kernel))
      (.between (by decide) (by decide) (.joined (by decide) h)))
  · exact hleft.append (.headD h)

/-- Only the counts of brackets open a bracket that a term leaves open. -/
theorem conditionSql_level : Level (conditionSql web term) := by
  have hvalues := @sqlValues_level web term
  have hoperator := @sqlOperator_level term
  rw [conditionSql]
  cases hcolumn : dateColumn term.attr with
  | some column =>
    have hfree : ∀ column ∈ ["E.StartDateTime", "E.EndDateTime"],
        nest '(' ')' column.toList = 1 := by decide +kernel
    exact dateRangeSql_level (hfree column (mem_of_dateColumn hcolumn)) term.op hvalues
  | none =>
    refine .ite (.ite ?_ (stillRunning_level hoperator (.headD hvalues)))
      (comparisonSql_level hoperator hvalues)
    refine .between (by decide) (by decide) (.joined (by decide) (.map ?_))
    intro value hvalue
    exact stillRunning_level hoperator (hvalues value hvalue)

theorem toUpper_eq_bracket {c bracket : Char} (hbracket : bracket = '(' ∨ bracket = ')') :
    c.toUpper = bracket ↔ c = bracket := by
  delta Char.toUpper
  split_ifs with hc
  · obtain ⟨hlow, hhigh⟩ := hc
    rw [UInt32.le_iff_toNat_le] at hlow hhigh
    constructor
    · intro h
      have hval := congrArg (fun c : Char ↦ c.val.toNat) h
      rcases hbracket with rfl | rfl <;> simp at hval hlow hhigh <;> omega
    · rintro rfl
      rcases hbracket with rfl | rfl <;> simp at hlow
  · rfl

theorem nest_upper (text : String) :
    nest '(' ')' (upper text).toList = nest '(' ')' text.toList := by
  rw [upper, String.toList_ofList, nest, nest, List.map_map]
  congr 1
  apply List.map_congr_left
  intro c _
  have hopening := @toUpper_eq_bracket c '(' (.inl rfl)
  have hclosing := @toUpper_eq_bracket c ')' (.inr rfl)
  simp only [Function.comp, bracketNest, hopening, hclosing]

/-- What is not in quotes has the brackets of the code and no others. -/
theorem nest_bare (hsafe : piece.Safe term) :
    nest '(' ')' (piece.bare web) = nest '(' ')' piece.codeText := by
  cases piece with
  | code text => rfl
  | listed text =>
    have hall : ∀ text ∈ validOps ++ validConjunctionTypes ++ ["1", ""],
        nest '(' ')' text.toList = 1 := by decide +kernel
    exact hall text hsafe
  | name text =>
    apply nest_of_free
    intro c hc
    have hname := hsafe.1 c hc
    constructor
    · rintro rfl
      exact absurd hname (by decide)
    · rintro rfl
      exact absurd hname (by decide)
  | keyword text =>
    have hall : ∀ keyword ∈ keywords, nest '(' ')' keyword.toList = 1 := by decide +kernel
    have hkeyword := hall (upper text) hsafe
    rw [nest_upper] at hkeyword
    exact hkeyword
  | integer n =>
    apply nest_of_free
    intro c hc
    obtain ⟨digits, -, hdigits, htext⟩ := integer_integerText n
    have hc' : c = '-' ∨ c.isDigit := by
      change c ∈ integerText n at hc
      rcases htext with htext | htext
      · exact .inr (hdigits c (htext ▸ hc))
      · rw [htext, List.mem_cons] at hc
        exact hc.imp_right (hdigits c)
    constructor
    · rintro rfl
      exact absurd hc' (by decide)
    · rintro rfl
      exact absurd hc' (by decide)
  | quoted text => rfl
  | date text => rfl

theorem nest_flatMap_bare (hsafe : AllSafe term pieces) :
    nest '(' ')' (pieces.flatMap (Piece.bare web)) = codeNest pieces := by
  induction pieces with
  | nil => rfl
  | cons piece pieces ih =>
    obtain ⟨hpiece, hpieces⟩ := allSafe_cons.mp hsafe
    rw [List.flatMap_cons, nest_append, nest_bare hpiece, ih hpieces, codeNest_cons]

end ZoneMinder.WebFilter
