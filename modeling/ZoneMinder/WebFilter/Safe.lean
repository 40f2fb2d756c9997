import ZoneMinder.Lib.Fields
import ZoneMinder.WebFilter.Sql

namespace ZoneMinder.WebFilter

open Lib.Literals

def dateChar (c : Char) : Bool := c.isDigit || c ∈ ['-', ':', ' ']

/-- A quoted text is a literal for this text, and a date has digits and what stands between
them. -/
structure Web.Documented (web : Web) : Prop where
  dbEscape : ∀ text, Literal text.toList (web.dbEscape text).toList
  dateTime : ∀ text, ∀ c ∈ (web.dateTime text).toList, dateChar c
  nextDay : ∀ day, ∀ c ∈ (web.nextDay day).toList, dateChar c

/-- The literals in quotes. -/
def Piece.isString : Piece → Bool
  | quoted _ => true
  | date _ => true
  | _ => false

def keywords : List String := ["NULL", "NOW()", "CURDATE()"]

def nameChar (c : Char) : Bool := c.isAlphanum || c = '.' || c = '_'

/-- A text without quotes. -/
def PlainText (text : String) : Prop := Plain text.toList

instance : DecidablePred PlainText := fun text ↦ inferInstanceAs (Decidable (Plain text.toList))

/-- What the parts of a term's SQL may hold. -/
def Piece.Safe (term : FilterTerm) : Piece → Prop
  | code text => PlainText text
  | listed text => text ∈ validOps ++ validConjunctionTypes ++ ["1", ""]
  | name text =>
    (∀ c ∈ text.toList, nameChar c) ∧
      (text = term.attr ∨ text = term.tablename ∨ text = term.collate)
  | keyword text => upper text ∈ keywords
  | integer _ => True
  | quoted _ => True
  | date text => ∀ c ∈ text.toList, dateChar c

def AllSafe (term : FilterTerm) (pieces : List Piece) : Prop :=
  ∀ piece ∈ pieces, piece.Safe term

variable {web : Web} {term : FilterTerm} {pieces pieces' : List Piece} {piece : Piece}

@[simp]
theorem allSafe_nil : AllSafe term [] := by simp [AllSafe]

@[simp]
theorem allSafe_cons :
    AllSafe term (piece :: pieces) ↔ piece.Safe term ∧ AllSafe term pieces := by
  simp [AllSafe]

@[simp]
theorem allSafe_append :
    AllSafe term (pieces ++ pieces') ↔ AllSafe term pieces ∧ AllSafe term pieces' := by
  simp only [AllSafe, List.mem_append, or_imp, forall_and]

@[simp]
theorem safe_code (text : String) : (Piece.code text).Safe term ↔ PlainText text := Iff.rfl

@[simp]
theorem safe_keyword (text : String) :
    (Piece.keyword text).Safe term ↔ upper text ∈ keywords := Iff.rfl

@[simp]
theorem safe_integer (n : ℤ) : (Piece.integer n).Safe term := trivial

@[simp]
theorem safe_quoted (text : String) : (Piece.quoted text).Safe term := trivial

theorem allSafe_ite {c : Prop} [Decidable c] (h : c → AllSafe term pieces)
    (h' : ¬c → AllSafe term pieces') : AllSafe term (if c then pieces else pieces') := by
  by_cases hc : c
  · rw [if_pos hc]
    exact h hc
  · rw [if_neg hc]
    exact h' hc

theorem allSafe_flatten {parts : List (List Piece)} (h : ∀ part ∈ parts, AllSafe term part) :
    AllSafe term parts.flatten := by
  intro piece hpiece
  obtain ⟨part, hpart, hmem⟩ := List.mem_flatten.mp hpiece
  exact h part hpart piece hmem

theorem allSafe_joined {separator : String} (hseparator : PlainText separator)
    {parts : List (List Piece)} (h : ∀ part ∈ parts, AllSafe term part) :
    AllSafe term (joined separator parts) := by
  refine allSafe_flatten ?_
  intro part hpart
  rcases Lib.mem_intersperse hpart with hpart | hpart
  · exact h part hpart
  · simp [hpart, hseparator]

theorem upper_date {text : String} (h : upper text = "CURDATE()" ∨ upper text = "NOW()") :
    upper text ∈ keywords := by
  rcases h with h | h <;> simp [h, keywords]

theorem upper_null {text : String} (h : upper text = "NULL") : upper text ∈ keywords := by
  simp [h, keywords]

theorem allSafe_single (h : piece.Safe term) : AllSafe term [piece] := by simp [h]

/-- Whatever the value holds, it becomes a literal, a number or a keyword. -/
theorem sqlValue_safe (hweb : web.Documented) (value : String) :
    AllSafe term (sqlValue web term value) := by
  have hdate : (Piece.date (web.dateTime value)).Safe term := hweb.dateTime value
  have hquoted (text : String) : AllSafe term [.quoted text] := by simp
  have hinteger (n : ℤ) : AllSafe term [.integer n] := by simp
  have hkeyword (h : upper value ∈ keywords) : (Piece.keyword value).Safe term := h
  have hdays : PlainText "to_days(" := by decide
  have hclose : PlainText ")" := by decide
  rw [sqlValue]
  refine allSafe_ite (fun _ ↦ ?_) fun _ ↦ allSafe_ite (fun _ ↦ allSafe_nil) fun _ ↦
    allSafe_ite (fun _ ↦ hquoted _) fun _ ↦ allSafe_ite (fun _ ↦ ?_) fun _ ↦
    allSafe_ite (fun _ ↦ ?_) fun _ ↦ allSafe_ite (fun _ ↦ ?_) fun _ ↦
    allSafe_ite (fun _ ↦ ?_) fun _ ↦ allSafe_ite (fun _ ↦ ?_) fun _ ↦
    allSafe_ite (fun _ ↦ hinteger 1) fun _ ↦ allSafe_ite (fun _ ↦ hinteger 0) fun _ ↦
    allSafe_ite (fun h ↦ ?_) fun _ ↦ hquoted _
  · have hzone : PlainText "(SELECT * FROM Stats WHERE EventId=E.Id AND ZoneId=" := by decide
    have hscore : PlainText " AND Score > 0 LIMIT 1)" := by decide
    simp [hzone, hscore]
  · exact allSafe_ite (fun _ ↦ hinteger _) fun _ ↦
      allSafe_ite (fun h ↦ allSafe_single (hkeyword (upper_null h))) fun _ ↦ hquoted _
  · exact allSafe_ite (fun h ↦ allSafe_single (hkeyword (upper_null h))) fun _ ↦ hquoted _
  · exact allSafe_ite (fun h ↦ allSafe_single (hkeyword (upper_date h))) fun _ ↦
      allSafe_ite (fun h ↦ allSafe_single (hkeyword (upper_null h))) fun _ ↦ allSafe_single hdate
  · refine allSafe_ite (fun h ↦ allSafe_ite (fun _ ↦ ?_) fun _ ↦
      allSafe_single (hkeyword (upper_date h))) fun _ ↦
      allSafe_ite (fun h ↦ allSafe_single (hkeyword (upper_null h))) fun _ ↦
      allSafe_ite (fun _ ↦ ?_) fun _ ↦ allSafe_single hdate
    · simp [hdays, hclose, upper_date h]
    · simp [hdays, hclose, hdate]
  · refine allSafe_ite (fun h ↦ allSafe_single (hkeyword (upper_null h))) fun _ ↦ ?_
    have hextract : PlainText "extract(hour_second from " := by decide
    simp [hextract, hclose, hdate]
  · exact allSafe_single (hkeyword (upper_null h))

theorem sqlValues_safe (hweb : web.Documented) :
    ∀ value ∈ sqlValues web term, AllSafe term value := by
  intro value hvalue
  rw [sqlValues] at hvalue
  split_ifs at hvalue
  · obtain ⟨id, -, rfl⟩ := List.mem_map.mp hvalue
    simp
  · obtain ⟨text, -, rfl⟩ := List.mem_map.mp hvalue
    exact sqlValue_safe hweb text

theorem op_listed : term.op.print ∈ validOps ++ validConjunctionTypes ++ ["1", ""] := by
  have hvalid := term.op_valid
  cases hop : term.op with
  | text s =>
    rw [hop, List.any_eq_true] at hvalid
    obtain ⟨valid, hmem, heq⟩ := hvalid
    have hs : s = valid := by simpa [Scalar.looseEq] using heq
    simp [Scalar.print, hs, hmem]
  | integer n =>
    rw [hop, List.any_eq_true] at hvalid
    obtain ⟨valid, hmem, heq⟩ := hvalid
    have hn : String.ofList (Php.decimal n) = valid := by simpa [Scalar.looseEq] using heq
    simp [Scalar.print, hn, hmem]
  | yes => simp [Scalar.print]
  | no => simp [Scalar.print]

theorem allSafe_code {text : String} (h : PlainText text) : AllSafe term [.code text] := by
  simp [h]

@[simp]
theorem safe_listed (text : String) :
    (Piece.listed text).Safe term ↔ text ∈ validOps ++ validConjunctionTypes ++ ["1", ""] :=
  Iff.rfl

theorem sqlOperator_safe : AllSafe term (sqlOperator term) := by
  have hlisted : AllSafe term [.code " ", .listed term.op.print, .code " "] := by
    have hspace : PlainText " " := by decide
    simp only [allSafe_cons, allSafe_nil, safe_code, safe_listed, hspace, op_listed, and_self]
  have hcode : ∀ text ∈ [" IN ", " EXISTS ", " regexp ", " not regexp ", " NOT IN ", " % 2 = ",
      " IS ", " = ", " % 2 != ", " IS NOT ", " != "], AllSafe term [.code text] := by
    intro text htext
    have hplain : ∀ text ∈ [" IN ", " EXISTS ", " regexp ", " not regexp ", " NOT IN ",
        " % 2 = ", " IS ", " = ", " % 2 != ", " IS NOT ", " != "], PlainText text := by
      decide
    exact allSafe_code (hplain text htext)
  rw [sqlOperator]
  refine allSafe_ite (fun _ ↦ hcode _ (by simp)) fun _ ↦
    allSafe_ite (fun _ ↦ hcode _ (by simp)) fun _ ↦ allSafe_ite (fun _ ↦ allSafe_nil) fun _ ↦ ?_
  cases hop : term.op with
  | yes =>
    rw [hop] at hlisted
    exact hlisted
  | text op =>
    rw [hop] at hlisted
    refine allSafe_ite (fun _ ↦ hlisted) fun _ ↦ ?_
    repeat' refine allSafe_ite (fun _ ↦ ?_) fun _ ↦ ?_
    all_goals first | exact allSafe_nil | exact hcode _ (by simp)
  | integer n => exact allSafe_nil
  | no => exact allSafe_nil

theorem allSafe_name_attr : AllSafe term [.name term.attr] := by
  refine allSafe_single ⟨?_, .inl rfl⟩
  intro c hc
  have h := term.attr_clean c hc
  rw [attrChar, Bool.or_eq_true] at h
  simp only [nameChar, Bool.or_eq_true]
  exact .inl h

theorem allSafe_name_collate : AllSafe term [.name term.collate] := by
  refine allSafe_single ⟨?_, .inr (.inr rfl)⟩
  intro c hc
  have h := term.collate_clean c hc
  rw [collateChar, Bool.or_eq_true] at h
  simp only [nameChar, Bool.or_eq_true]
  tauto

theorem allSafe_name_tablename : AllSafe term [.name term.tablename] := by
  refine allSafe_single ⟨?_, .inr (.inl rfl)⟩
  have hall : ∀ tablename ∈ validTablenames, tablename.toList.all nameChar := by decide
  exact List.all_eq_true.mp (hall _ term.tablename_valid)

theorem sqlAttr_safe : AllSafe term (sqlAttr web term) := by
  have hattr := @allSafe_name_attr term
  have hsilent : AllSafe term [.code "TRUE /*", .name term.attr, .code "*/"] := by
    have hopen : PlainText "TRUE /*" := by decide
    have hclose : PlainText "*/" := by decide
    simpa [hopen, hclose] using hattr
  have hserver : AllSafe term [.code "/* ZM_SERVER_ID:*/", .integer (web.serverId.getD 0)] := by
    have hcomment : PlainText "/* ZM_SERVER_ID:*/" := by decide
    simp [hcomment]
  have hcolumn : AllSafe term [.name term.tablename, .code ".", .name term.attr] := by
    have hdot : PlainText "." := by decide
    have htablename := @allSafe_name_tablename term
    simp only [allSafe_cons, allSafe_nil, and_true] at hattr htablename
    simp [hdot, hattr, htablename]
  rw [sqlAttr]
  repeat' refine allSafe_ite (fun _ ↦ ?_) fun _ ↦ ?_
  all_goals first | assumption | exact allSafe_code (by decide)

theorem mem_of_dateColumn {attr column : String} (h : dateColumn attr = some column) :
    column ∈ ["E.StartDateTime", "E.EndDateTime"] := by
  rw [dateColumn] at h
  split_ifs at h <;> simp_all

theorem dayOf_digit {date day : String} (h : dayOf date = some day) :
    ∀ c ∈ day.toList, dateChar c := by
  intro c hc
  rw [dayOf] at h
  simp only [Option.ite_none_right_eq_some, Option.some.injEq] at h
  obtain ⟨⟨-, -, -, -, hdigits⟩, rfl⟩ := h
  rw [String.toList_ofList] at hc
  by_cases hdash : c = '-'
  · simp [dateChar, hdash]
  · have hdigit := List.all_eq_true.mp hdigits c
      (List.mem_filter.mpr ⟨hc, by simpa using hdash⟩)
    simp [dateChar, hdigit]

theorem dateBounds_safe (hweb : web.Documented) {value : List Piece} (h : AllSafe term value) :
    AllSafe term (dateBounds web value).1 ∧ AllSafe term (dateBounds web value).2 := by
  have hinterval : PlainText " + INTERVAL 1 DAY" := by decide
  unfold dateBounds
  split
  next keyword =>
    split_ifs
    · exact ⟨h, by simpa [hinterval] using h⟩
    · exact ⟨h, h⟩
  next date =>
    split
    next day hday =>
      refine ⟨allSafe_single ?_, allSafe_single (hweb.nextDay day)⟩
      intro c hc
      rw [String.toList_append, List.mem_append] at hc
      have htime : " 00:00:00".toList.all dateChar := by decide
      exact hc.elim (dayOf_digit hday c) (List.all_eq_true.mp htime c)
    · exact ⟨h, h⟩
  · exact ⟨h, h⟩

section DateRange

variable {column : String} {value : List Piece} {values : List (List Piece)}

theorem plainText_append {text text' : String} (h : PlainText text) (h' : PlainText text') :
    PlainText (text ++ text') := by
  rw [PlainText, String.toList_append, plain_append]
  exact ⟨h, h'⟩

/-- The texts around the bounds of a range. -/
theorem plainText_column (hcolumn : PlainText column) :
    PlainText (column ++ " >= ") ∧ PlainText (column ++ " < ") ∧
      PlainText (" AND " ++ column ++ " < ") ∧ PlainText ("(" ++ column ++ " < ") ∧
      PlainText (" OR " ++ column ++ " >= ") ∧ PlainText (column ++ " IS NULL") ∧
      PlainText (column ++ " IS NOT NULL") ∧ PlainText ("to_days(" ++ column ++ ") ") := by
  have hafter (text : String) (h : PlainText text) : PlainText (column ++ text) :=
    plainText_append hcolumn h
  have hbetween (before text : String) (hbefore : PlainText before) (h : PlainText text) :
      PlainText (before ++ column ++ text) :=
    plainText_append (plainText_append hbefore hcolumn) h
  exact ⟨hafter _ (by decide), hafter _ (by decide), hbetween _ _ (by decide) (by decide),
    hbetween _ _ (by decide) (by decide), hbetween _ _ (by decide) (by decide),
    hafter _ (by decide), hafter _ (by decide), hbetween _ _ (by decide) (by decide)⟩

theorem within_safe (hweb : web.Documented) (hcolumn : PlainText column)
    (h : AllSafe term value) : AllSafe term (within web column value) := by
  obtain ⟨hlow, hhigh⟩ := dateBounds_safe hweb h
  obtain ⟨hge, -, hand, -⟩ := plainText_column hcolumn
  simp [within, hlow, hhigh, hge, hand]

theorem outside_safe (hweb : web.Documented) (hcolumn : PlainText column)
    (h : AllSafe term value) : AllSafe term (outside web column value) := by
  obtain ⟨hlow, hhigh⟩ := dateBounds_safe hweb h
  obtain ⟨-, -, -, hopen, hor, -⟩ := plainText_column hcolumn
  have hclose : PlainText ")" := by decide
  simp [outside, hlow, hhigh, hopen, hor, hclose]

theorem headD_safe (h : ∀ value ∈ values, AllSafe term value) :
    AllSafe term (values.headD []) := by
  cases values with
  | nil => simp
  | cons value values => exact h value List.mem_cons_self

theorem dateRangeSql_safe (hweb : web.Documented) (hcolumn : PlainText column)
    (h : ∀ value ∈ values, AllSafe term value) :
    AllSafe term (dateRangeSql web column term.op values) := by
  have hvalue := headD_safe h
  obtain ⟨hlow, hhigh⟩ := dateBounds_safe hweb hvalue
  have hwithin := within_safe hweb hcolumn hvalue
  have houtside := outside_safe hweb hcolumn hvalue
  obtain ⟨hge, hlt, -, -, -, hnull, hnotNull, hdays⟩ := plainText_column hcolumn
  have hopen : PlainText "(" := by decide
  have hclose : PlainText ")" := by decide
  have hspace : PlainText " " := by decide
  have hlisted : (Piece.listed term.op.print).Safe term := op_listed
  have hors : AllSafe term (joined " OR " (values.map (fun v ↦
      [.code "("] ++ within web column v ++ [.code ")"]))) := by
    refine allSafe_joined (by decide) ?_
    intro part hpart
    obtain ⟨v, hv, rfl⟩ := List.mem_map.mp hpart
    simp [within_safe hweb hcolumn (h v hv), hopen, hclose]
  have hands : AllSafe term (joined " AND " (values.map (outside web column))) := by
    refine allSafe_joined (by decide) ?_
    intro part hpart
    obtain ⟨v, hv, rfl⟩ := List.mem_map.mp hpart
    exact outside_safe hweb hcolumn (h v hv)
  rw [dateRangeSql]
  repeat' refine allSafe_ite (fun _ ↦ ?_) fun _ ↦ ?_
  all_goals simp only [allSafe_append, allSafe_cons, allSafe_nil, safe_code, hwithin, houtside,
    hors, hands, hlow, hhigh, hvalue, hge, hlt, hnull, hnotNull, hdays, hopen, hclose, hspace,
    hlisted, and_self]

end DateRange

section Comparison

variable {operator value : List Piece} {values : List (List Piece)}

theorem stillRunning_safe (hoperator : AllSafe term operator) (h : AllSafe term value) :
    AllSafe term (stillRunning operator value) := by
  have hfloor : PlainText "(E.StartDateTime >= DATE_SUB(" := by decide
  have hend : PlainText
      ", INTERVAL 1 DAY) AND (E.EndDateTime IS NULL OR E.EndDateTime" := by decide
  have heffective : PlainText (") AND " ++ effectiveEndSql) :=
    plainText_append (by decide) (plainText_append (plainText_append (by decide) (by decide))
      (by decide))
  have hclose : PlainText ")" := by decide
  simp [stillRunning, hoperator, h, hfloor, hend, heffective, hclose]

theorem tagged_safe (negated : Bool) : AllSafe term (tagged negated) := by
  cases negated <;> exact allSafe_code (by decide)

theorem leftSql_safe : AllSafe term (leftSql web term) := by
  have hcollate : AllSafe term [.code " COLLATE ", .name term.collate] := by
    have hcode : PlainText " COLLATE " := by decide
    simpa [hcode] using @allSafe_name_collate term
  rw [leftSql, allSafe_append]
  exact ⟨sqlAttr_safe, allSafe_ite (fun _ ↦ allSafe_nil) fun _ ↦ hcollate⟩

/-- Parts in brackets. -/
theorem allSafe_brackets {separator : String} (hseparator : PlainText separator)
    (h : ∀ value ∈ values, AllSafe term value) :
    AllSafe term ([.code "("] ++ joined separator values ++ [.code ")"]) := by
  have hopen : PlainText "(" := by decide
  have hclose : PlainText ")" := by decide
  simp only [allSafe_append, allSafe_cons, allSafe_nil, safe_code, hopen, hclose,
    allSafe_joined hseparator h, and_self]

theorem allSafe_map {f : List Piece → List Piece} (h : ∀ value ∈ values, AllSafe term (f value)) :
    ∀ part ∈ values.map f, AllSafe term part := by
  intro part hpart
  obtain ⟨value, hvalue, rfl⟩ := List.mem_map.mp hpart
  exact h value hvalue

theorem comparisonSql_safe (hoperator : AllSafe term operator)
    (h : ∀ value ∈ values, AllSafe term value) :
    AllSafe term (comparisonSql web term operator values) := by
  have hleft : AllSafe term (leftSql web term) := leftSql_safe
  rw [comparisonSql]
  refine allSafe_ite (fun _ ↦ ?_) fun _ ↦ allSafe_ite (fun _ ↦ tagged_safe _) fun _ ↦
    allSafe_ite (fun _ ↦ tagged_safe _) fun _ ↦ allSafe_ite (fun _ ↦ ?_) fun _ ↦ ?_
  · refine allSafe_brackets (by decide) (allSafe_map ?_)
    intro value hvalue
    simp [hleft, hoperator, h value hvalue]
  · rw [allSafe_append, allSafe_append]
    exact ⟨⟨hleft, hoperator⟩, allSafe_ite (fun _ ↦ allSafe_code (by decide)) fun _ ↦
      allSafe_brackets (by decide) h⟩
  · rw [allSafe_append, allSafe_append]
    exact ⟨⟨hleft, hoperator⟩, headD_safe h⟩

theorem conditionSql_safe (hweb : web.Documented) : AllSafe term (conditionSql web term) := by
  have hvalues := @sqlValues_safe web term hweb
  have hoperator := @sqlOperator_safe term
  rw [conditionSql]
  cases hcolumn : dateColumn term.attr with
  | some column =>
    have hplain : ∀ column ∈ ["E.StartDateTime", "E.EndDateTime"], PlainText column := by decide
    exact dateRangeSql_safe hweb (hplain column (mem_of_dateColumn hcolumn)) hvalues
  | none =>
    refine allSafe_ite (fun _ ↦ allSafe_ite (fun _ ↦ ?_) fun _ ↦ ?_) fun _ ↦
      comparisonSql_safe hoperator hvalues
    · refine allSafe_brackets (by decide) (allSafe_map ?_)
      intro value hvalue
      exact stillRunning_safe hoperator (hvalues value hvalue)
    · exact stillRunning_safe hoperator (headD_safe hvalues)

end Comparison

theorem brackets_safe {bracket : Char} (h : delimiter bracket = false) {count : Option String} :
    ∀ pieces ∈ brackets web bracket count, AllSafe term pieces := by
  intro pieces hpieces
  cases count with
  | none =>
    obtain rfl : [] = pieces := by simpa [brackets] using hpieces
    exact allSafe_nil
  | some count =>
    obtain ⟨n, -, rfl⟩ := Option.map_eq_some_iff.mp hpieces
    have hspace : PlainText " " := by decide
    have hrun : PlainText (String.ofList (List.replicate n bracket)) := by
      intro c hc
      rw [String.toList_ofList] at hc
      rwa [List.eq_of_mem_replicate hc]
    simp [hspace, hrun]

theorem conjunction_safe {cnj : Option String}
    (h : ∀ text ∈ cnj, text = "" ∨ text ∈ validConjunctionTypes) :
    AllSafe term (conjunction cnj) := by
  cases cnj with
  | none => exact allSafe_nil
  | some cnj =>
    have hspace : PlainText " " := by decide
    have hlisted : cnj ∈ validOps ++ validConjunctionTypes ++ ["1", ""] := by
      rcases h cnj rfl with h | h <;> simp [h]
    simp only [conjunction, allSafe_cons, allSafe_nil, safe_code, safe_listed, hspace, hlisted,
      and_self]

/-- What of a term is not in quotes comes from the code, or from where only names can come from. -/
theorem sqlWith_safe (hweb : web.Documented) {cnj : Option String}
    (hcnj : ∀ text ∈ cnj, text = "" ∨ text ∈ validConjunctionTypes) :
    ∀ pieces ∈ sqlWith web term cnj, AllSafe term pieces := by
  intro pieces hpieces
  rw [sqlWith] at hpieces
  split_ifs at hpieces
  · obtain rfl : [] = pieces := by simpa using hpieces
    exact allSafe_nil
  · obtain ⟨opening, hopening, hpieces⟩ := Option.bind_eq_some_iff.mp hpieces
    obtain ⟨closing, hclosing, hpieces⟩ := Option.bind_eq_some_iff.mp hpieces
    rw [Option.pure_def, Option.some.injEq] at hpieces
    subst hpieces
    have hspace : PlainText " " := by decide
    have hline : PlainText "\n" := by decide
    have hopen : AllSafe term opening := brackets_safe (by decide) opening hopening
    have hclose : AllSafe term closing := brackets_safe (by decide) closing hclosing
    simp only [allSafe_append, allSafe_cons, allSafe_nil, safe_code, hspace, hline,
      conjunction_safe hcnj, hopen, hclose, conditionSql_safe hweb, and_self]

theorem sql_safe (hweb : web.Documented) : ∀ pieces ∈ sql web term, AllSafe term pieces := by
  refine sqlWith_safe hweb ?_
  rintro _ ⟨⟩
  exact term.cnj_valid

end ZoneMinder.WebFilter
