import Mathlib.Data.List.Forall2
import ZoneMinder.WebFilter.Safe

namespace ZoneMinder.WebFilter

open Lib.Literals

variable {web : Web} {term : FilterTerm} {pieces pieces' : List Piece} {piece : Piece}

/-- A part as it stands outside of quotes. -/
def Piece.bare (web : Web) (piece : Piece) : List Char :=
  if piece.isString then [] else piece.render web

theorem plain_of_keyword {text : String} (h : upper text ∈ keywords) : PlainText text := by
  intro c hc
  have hall : ∀ keyword ∈ keywords, Plain keyword.toList := by decide
  have hupper : c.toUpper ∈ (upper text).toList := by
    rw [upper, String.toList_ofList]
    exact List.mem_map_of_mem hc
  have hplain := hall _ h _ hupper
  exact @not_delimiter_of (fun c ↦ !delimiter c.toUpper) (by decide) (by decide) c (by simp [hplain])

theorem plain_of_safe (hsafe : piece.Safe term) (h : piece.isString = false) :
    Plain (piece.render web) := by
  cases piece with
  | code text => exact hsafe
  | listed text =>
    have hall : ∀ text ∈ validOps ++ validConjunctionTypes ++ ["1", ""], PlainText text := by
      decide
    exact hall text hsafe
  | name text => exact fun c hc ↦ not_delimiter_of (by decide) (by decide) (hsafe.1 c hc)
  | keyword text => exact plain_of_keyword hsafe
  | integer n => exact plain_of_integer (integer_integerText n)
  | quoted text => cases h
  | date text => cases h

theorem dateChar_ne {c : Char} (h : dateChar c) : c ≠ '\'' ∧ c ≠ '\\' := by
  refine ⟨?_, ?_⟩
  · intro hc
    rw [hc] at h
    revert h
    decide
  · intro hc
    rw [hc] at h
    revert h
    decide

theorem literal_of_safe (hweb : web.Documented) (hsafe : piece.Safe term)
    (h : piece.isString) : ∃ value, Literal value (piece.render web) := by
  cases piece with
  | quoted text => exact ⟨_, hweb.dbEscape text⟩
  | date text => exact ⟨_, literal_of_plain fun c hc ↦ dateChar_ne (hsafe c hc)⟩
  | code | listed | name | keyword | integer => cases h

theorem render_cons : render web (piece :: pieces) = piece.render web ++ render web pieces := rfl

theorem run_piece (hweb : web.Documented) (hsafe : piece.Safe term) {s : Scanner}
    (hs : s.Outside) :
    (s.run (piece.render web)).Outside ∧
      (s.run (piece.render web)).text = s.text ++ piece.bare web := by
  by_cases h : piece.isString
  · obtain ⟨value, hliteral⟩ := literal_of_safe hweb hsafe h
    refine ⟨run_literal_outside hs hliteral, ?_⟩
    simp [text_run_literal hs hliteral, Piece.bare, h]
  · rw [Bool.not_eq_true] at h
    have hplain : Plain (piece.render web) := plain_of_safe hsafe h
    refine ⟨run_outside hs hplain, ?_⟩
    simp [text_run hs hplain, Piece.bare, h]

/-- The quotes of the SQL are those around its literals. -/
theorem run_render (hweb : web.Documented) (hsafe : AllSafe term pieces) {s : Scanner}
    (hs : s.Outside) :
    (s.run (render web pieces)).Outside ∧
      (s.run (render web pieces)).text = s.text ++ pieces.flatMap (Piece.bare web) := by
  induction pieces generalizing s with
  | nil => simpa [render] using hs
  | cons piece pieces ih =>
    obtain ⟨hpiece, hpieces⟩ := allSafe_cons.mp hsafe
    obtain ⟨hout, htext⟩ := run_piece hweb hpiece hs
    obtain ⟨hout', htext'⟩ := ih hpieces hout
    rw [render_cons, run_append]
    refine ⟨hout', ?_⟩
    rw [htext', htext, List.flatMap_cons, List.append_assoc]

/-- A character that the next word or number does not belong to. -/
def Separator (c : Char) : Prop := delimiter c = false ∧ wordChar c = false ∧ c ≠ '-'

/-- Parts that differ in what the literals hold. -/
inductive Alike : List Piece → List Piece → Prop
  | nil : Alike [] []
  | cons {piece piece' : Piece} {pieces pieces' : List Piece}
      (hpiece : piece = piece' ∨ piece.isString ∧ piece'.isString)
      (hpieces : Alike pieces pieces') : Alike (piece :: pieces) (piece' :: pieces')
  | integer {text : String} {init : List Char} {c : Char} {pieces pieces' : List Piece}
      (htext : text.toList = init ++ [c]) (hc : Separator c) (n n' : ℤ)
      (hpieces : Alike pieces pieces') :
      Alike (.code text :: .integer n :: pieces) (.code text :: .integer n' :: pieces')

theorem Alike.refl (pieces : List Piece) : Alike pieces pieces := by
  induction pieces with
  | nil => exact .nil
  | cons piece pieces ih => exact .cons (.inl rfl) ih

theorem Alike.append (h : Alike pieces pieces') {rest rest' : List Piece}
    (hrest : Alike rest rest') : Alike (pieces ++ rest) (pieces' ++ rest') := by
  induction h with
  | nil => exact hrest
  | cons hpiece _ ih => exact .cons hpiece ih
  | integer htext hc n n' _ ih => exact .integer htext hc n n' ih

theorem Alike.ite {c : Prop} [Decidable c] {a a' b b' : List Piece} (h : Alike a a')
    (h' : Alike b b') : Alike (if c then a else b) (if c then a' else b') := by
  by_cases hc : c
  · rwa [if_pos hc, if_pos hc]
  · rwa [if_neg hc, if_neg hc]

theorem Alike.strings (h : piece.isString) {piece' : Piece} (h' : piece'.isString) :
    Alike [piece] [piece'] := .cons (.inr ⟨h, h'⟩) .nil

theorem Alike.joined {separator : String} {parts parts' : List (List Piece)}
    (h : List.Forall₂ Alike parts parts') : Alike (joined separator parts) (joined separator parts') := by
  induction h with
  | nil => exact .nil
  | cons hpart hparts ih =>
    cases hparts with
    | nil => simpa [WebFilter.joined] using hpart
    | cons hpart' hparts' =>
      have hmore := hpart.append ((Alike.refl [.code separator]).append ih)
      simpa [WebFilter.joined, List.intersperse_cons_cons] using hmore

theorem run_code_mode {text : String} {init : List Char} {c : Char}
    (htext : text.toList = init ++ [c]) (hc : Separator c) (hplain : PlainText text) {s : Scanner}
    (hs : s.Outside) : ∃ parts, s.run text.toList = ⟨parts, .outside false⟩ := by
  rw [PlainText, htext, plain_append] at hplain
  have hinit := run_outside hs hplain.1
  refine ⟨((s.run init).step c).parts, ?_⟩
  rw [htext, run_append, run_cons, run_nil]
  have hmode := step_separator hinit hc.1 hc.2.1 hc.2.2
  rw [← hmode]

/-- The scanner cuts texts that are alike at the same places. -/
theorem Alike.shape_run (hweb : web.Documented) {term' : FilterTerm} (h : Alike pieces pieces')
    (hsafe : AllSafe term pieces) (hsafe' : AllSafe term' pieces') {s s' : Scanner}
    (hshape : s.shape = s'.shape) (hs : s.Outside) (hs' : s'.Outside) :
    (s.run (render web pieces)).shape = (s'.run (render web pieces')).shape := by
  induction h generalizing s s' with
  | nil => exact hshape
  | cons hpiece hpieces ih =>
    obtain ⟨hfirst, hrest⟩ := allSafe_cons.mp hsafe
    obtain ⟨hfirst', hrest'⟩ := allSafe_cons.mp hsafe'
    rw [render_cons, render_cons, run_append, run_append]
    refine ih hrest hrest' ?_ (run_piece hweb hfirst hs).1 (run_piece hweb hfirst' hs').1
    rcases hpiece with rfl | ⟨hstring, hstring'⟩
    · exact Lib.Literals.shape_run hshape _
    · obtain ⟨value, hliteral⟩ := literal_of_safe hweb hfirst hstring
      obtain ⟨value', hliteral'⟩ := literal_of_safe hweb hfirst' hstring'
      exact shape_run_literal hshape hs hs' hliteral hliteral'
  | @integer text init c pieces pieces' htext hc n n' hpieces ih =>
    simp only [allSafe_cons, safe_code, safe_integer, true_and] at hsafe hsafe'
    obtain ⟨parts, hrun⟩ := run_code_mode htext hc hsafe.1 hs
    obtain ⟨parts', hrun'⟩ := run_code_mode htext hc hsafe'.1 hs'
    have hcode := Lib.Literals.shape_run hshape text.toList
    rw [hrun, hrun'] at hcode
    have hinteger (parts : List Part) (n : ℤ) :
        Scanner.run ⟨parts, .outside false⟩ (integerText n) = ⟨parts, .digits (integerText n)⟩ :=
      run_integer (integer_integerText n) parts
    have hcons (n : ℤ) (pieces : List Piece) :
        render web (.code text :: .integer n :: pieces) =
          text.toList ++ (integerText n ++ render web pieces) := rfl
    rw [hcons, hcons, run_append, run_append, run_append, run_append, hrun, hrun', hinteger,
      hinteger]
    refine ih hsafe.2 hsafe'.2 ?_ trivial trivial
    simpa [Scanner.shape, Mode.shape] using hcode

/-- Values that the code knows by name. -/
def Special (attr value : String) : Prop :=
  upper value ∈ keywords ∨ value ∈ ["Odd", "Even", "ZM_SERVER_ID"] ∨
    attr = "Tags" ∧ value ∈ ["0", "-1"]

instance (attr value : String) : Decidable (Special attr value) :=
  inferInstanceAs (Decidable (_ ∨ _ ∨ _))

theorem ne_of_not_special {attr value : String} (h : ¬Special attr value) :
    upper value ≠ "NULL" ∧ ¬(upper value = "CURDATE()" ∨ upper value = "NOW()") ∧
      value ≠ "Odd" ∧ value ≠ "Even" ∧ value ≠ "ZM_SERVER_ID" := by
  simp only [Special, keywords, List.mem_cons, List.not_mem_nil, or_false, not_or] at h
  tauto

section TwoRuns

variable {val' : Scalar} {value value' : String}

theorem sqlValue_alike (h : ¬Special term.attr value) (h' : ¬Special term.attr value') :
    Alike (sqlValue web term value) (sqlValue web { term with val := val' } value') := by
  obtain ⟨hnull, hnow, hodd, heven, hserver⟩ := ne_of_not_special h
  obtain ⟨hnull', hnow', hodd', heven', hserver'⟩ := ne_of_not_special h'
  have hquoted (text text' : String) : Alike [.quoted text] [.quoted text'] := .strings rfl rfl
  have hdate : Alike [.date (web.dateTime value)] [.date (web.dateTime value')] :=
    .strings rfl rfl
  have hzone : Alike
      [.code "(SELECT * FROM Stats WHERE EventId=E.Id AND ZoneId=", .integer (web.intval value),
        .code " AND Score > 0 LIMIT 1)"]
      [.code "(SELECT * FROM Stats WHERE EventId=E.Id AND ZoneId=", .integer (web.intval value'),
        .code " AND Score > 0 LIMIT 1)"] := by
    have htext : "(SELECT * FROM Stats WHERE EventId=E.Id AND ZoneId=".toList =
        "(SELECT * FROM Stats WHERE EventId=E.Id AND ZoneId".toList ++ ['='] := by decide
    exact .integer htext ⟨by decide, by decide, by decide⟩ _ _ (.refl _)
  have haround (before after : String) : Alike
      [.code before, .date (web.dateTime value), .code after]
      [.code before, .date (web.dateTime value'), .code after] :=
    (Alike.refl [.code before]).append (hdate.append (.refl [.code after]))
  simp only [sqlValue, hnull, hnow, hodd, heven, hserver, hnull', hnow', hodd', heven', hserver',
    if_false]
  exact .ite hzone <| .ite .nil <| .ite (hquoted _ _) <| .ite (hquoted _ _) <|
    .ite (hquoted _ _) <| .ite hdate <| .ite (.ite (haround _ _) hdate) <|
    .ite (haround _ _) (hquoted _ _)

/-- The values of two terms that differ in their value. -/
theorem sqlValues_alike (hgroup : term.attr ≠ "Group")
    (hlength : (values term.val).length = (values val').length)
    (h : ∀ value ∈ values term.val, ¬Special term.attr value)
    (h' : ∀ value ∈ values val', ¬Special term.attr value) :
    List.Forall₂ Alike (sqlValues web term) (sqlValues web { term with val := val' }) := by
  simp only [sqlValues, hgroup, if_false]
  rw [List.forall₂_map_left_iff, List.forall₂_map_right_iff, List.forall₂_iff_zip]
  refine ⟨hlength, ?_⟩
  intro value value' hzip
  exact sqlValue_alike (h value (List.of_mem_zip hzip).1) (h' value' (List.of_mem_zip hzip).2)

theorem values_of_plain {s : String} (hcomma : ',' ∉ s.toList)
    (hquote : s.toList.head?.any Filter.isQuote = false) : values (.text s) = [s] := by
  have hstrip : Filter.stripQuotes s.toList = s.toList := by
    cases hs : s.toList with
    | nil => rfl
    | cons q rest =>
      rw [hs] at hquote
      have hq : Filter.isQuote q = false := by simpa using hquote
      simp [Filter.stripQuotes, hq]
  have hfields : Filter.splitFields Php.space s.toList = [s.toList] := by
    rw [Filter.splitFields, List.splitOn_eq_singleton hcomma]
    rfl
  rw [values, Scalar.print, hstrip, hfields, List.map_singleton, String.ofList_toList]

/-- A keyword is its own only value. -/
theorem values_of_upper_null {s : String} (h : upper s = "NULL") : values (.text s) = [s] := by
  have hmap : s.toList.map Char.toUpper = ['N', 'U', 'L', 'L'] := by
    have hlist := congrArg String.toList h
    rwa [upper, String.toList_ofList] at hlist
  refine values_of_plain ?_ ?_
  · intro hc
    have hmem := List.mem_map_of_mem (f := Char.toUpper) hc
    rw [hmap] at hmem
    revert hmem
    decide
  · cases hs : s.toList with
    | nil => rfl
    | cons c rest =>
      rw [hs, List.map_cons, List.cons.injEq] at hmap
      have hupper : c.toUpper = 'N' := hmap.1
      show Filter.isQuote c = false
      by_contra hq
      simp only [Filter.isQuote, Bool.or_eq_true, decide_eq_true_eq, Bool.not_eq_false] at hq
      rcases hq with hq | hq
      · rw [hq] at hupper
        revert hupper
        decide
      · rw [hq] at hupper
        revert hupper
        decide

theorem toUpper_of_digit {c : Char} (h : c.isDigit = true) : c.toUpper = c := by
  have hdigit := h
  simp only [Char.isDigit, Bool.and_eq_true, decide_eq_true_eq] at hdigit
  delta Char.toUpper
  rw [dif_neg]
  rintro ⟨hlow, -⟩
  have hcontra := UInt32.le_trans hlow hdigit.2
  revert hcontra
  decide

/-- An integer is none of the names. -/
theorem integer_ne (n : ℤ) {text : String} {c : Char} (hc : c ∈ text.toList) (hminus : c ≠ '-')
    (hdigit : c.isDigit = false) :
    String.ofList (Php.decimal n) ≠ text ∧ upper (String.ofList (Php.decimal n)) ≠ text := by
  have hplain : ∀ d ∈ Php.decimal n, d.toUpper = d ∧ d ≠ c := by
    intro d hd
    rcases Php.mem_decimal hd with rfl | hd
    · exact ⟨by decide, hminus.symm⟩
    · refine ⟨toUpper_of_digit hd, ?_⟩
      rintro rfl
      simp [hd] at hdigit
  have hupper : (Php.decimal n).map Char.toUpper = (Php.decimal n).map id :=
    List.map_congr_left fun d hd ↦ (hplain d hd).1
  rw [List.map_id] at hupper
  refine ⟨?_, ?_⟩
  · rintro rfl
    rw [String.toList_ofList] at hc
    exact (hplain c hc).2 rfl
  · rintro rfl
    rw [upper, String.toList_ofList, String.toList_ofList, hupper] at hc
    exact (hplain c hc).2 rfl

/-- Where no value is known by name, the operators make no difference for it. -/
theorem val_of_not_special {attr : String} {val : Scalar} (hyes : val ≠ .yes)
    (h : ∀ value ∈ values val, ¬Special attr value) :
    val.looseEq "Odd" = false ∧ val.looseEq "Even" = false ∧ upper val.print ≠ "NULL" := by
  cases val with
  | yes => exact absurd rfl hyes
  | no => exact ⟨by decide, by decide, by decide⟩
  | integer n =>
    have hodd := (@integer_ne n "Odd" 'O' (by decide) (by decide) (by decide)).1
    have heven := (@integer_ne n "Even" 'E' (by decide) (by decide) (by decide)).1
    have hnull := (@integer_ne n "NULL" 'N' (by decide) (by decide) (by decide)).2
    exact ⟨by simpa [Scalar.looseEq] using hodd, by simpa [Scalar.looseEq] using heven, hnull⟩
  | text s =>
    have hnot (hvalues : values (.text s) = [s]) : ¬Special attr s := by
      rw [hvalues] at h
      exact h s (List.mem_singleton_self s)
    refine ⟨?_, ?_, ?_⟩
    · by_contra heq
      have hs : s = "Odd" := by simpa [Scalar.looseEq] using heq
      refine hnot ?_ (.inr (.inl ?_))
      · rw [hs]
        exact values_of_plain (by decide) (by decide)
      · simp [hs]
    · by_contra heq
      have hs : s = "Even" := by simpa [Scalar.looseEq] using heq
      refine hnot ?_ (.inr (.inl ?_))
      · rw [hs]
        exact values_of_plain (by decide) (by decide)
      · simp [hs]
    · intro hs
      exact hnot (values_of_upper_null hs) (.inl (upper_null hs))

theorem sqlOperator_eq (hyes : term.val ≠ .yes) (hyes' : val' ≠ .yes)
    (h : ∀ value ∈ values term.val, ¬Special term.attr value)
    (h' : ∀ value ∈ values val', ¬Special term.attr value) :
    sqlOperator { term with val := val' } = sqlOperator term := by
  obtain ⟨hodd, heven, hnull⟩ := val_of_not_special hyes h
  obtain ⟨hodd', heven', hnull'⟩ := val_of_not_special hyes' h'
  simp only [sqlOperator, hodd, heven, hnull, hodd', heven', hnull']

theorem dateBounds_date (date : String) :
    ∃ low high, dateBounds web [.date date] = ([.date low], [.date high]) := by
  cases hday : dayOf date with
  | none => exact ⟨date, date, by simp [dateBounds, hday]⟩
  | some day => exact ⟨day ++ " 00:00:00", web.nextDay day, by simp [dateBounds, hday]⟩

theorem dateBounds_alike (date date' : String) :
    Alike (dateBounds web [.date date]).1 (dateBounds web [.date date']).1 ∧
      Alike (dateBounds web [.date date]).2 (dateBounds web [.date date']).2 := by
  obtain ⟨low, high, hbounds⟩ := @dateBounds_date web date
  obtain ⟨low', high', hbounds'⟩ := @dateBounds_date web date'
  rw [hbounds, hbounds']
  exact ⟨.strings rfl rfl, .strings rfl rfl⟩

theorem within_alike (column date date' : String) :
    Alike (within web column [.date date]) (within web column [.date date']) := by
  obtain ⟨hlow, hhigh⟩ := @dateBounds_alike web date date'
  exact (((Alike.refl _).append hlow).append (.refl _)).append hhigh

theorem outside_alike (column date date' : String) :
    Alike (outside web column [.date date]) (outside web column [.date date']) := by
  obtain ⟨hlow, hhigh⟩ := @dateBounds_alike web date date'
  exact ((((Alike.refl _).append hlow).append (.refl _)).append hhigh).append (.refl _)

/-- The dates that the values of a date column are. -/
def dated (dates : List String) : List (List Piece) := dates.map (fun date ↦ [.date date])

theorem isNull_dated (dates : List String) : isNull web (dated dates) = false := by
  cases dates with
  | nil => rfl
  | cons date dates =>
    have hne : upper (String.ofList (render web [.date date])) ≠ "NULL" := by
      intro h
      have hlist := congrArg String.toList h
      rw [upper, String.toList_ofList, String.toList_ofList] at hlist
      have hquote : ('\'' : Char).toUpper = 'N' := by
        simpa [render, Piece.render] using congrArg List.head? hlist
      revert hquote
      decide
    simp [isNull, dated, hne]

theorem joined_dated_alike {f : List Piece → List Piece} (separator : String)
    {dates dates' : List String} (hlength : dates.length = dates'.length)
    (h : ∀ date date', Alike (f [.date date]) (f [.date date'])) :
    Alike (joined separator ((dated dates).map f)) (joined separator ((dated dates').map f)) := by
  refine .joined ?_
  rw [dated, dated, List.map_map, List.map_map, List.forall₂_map_left_iff,
    List.forall₂_map_right_iff, List.forall₂_iff_zip]
  exact ⟨hlength, fun _ ↦ h _ _⟩

theorem dateRangeSql_alike (column : String) (op : Scalar) {dates dates' : List String}
    (hlength : dates.length = dates'.length) :
    Alike (dateRangeSql web column op (dated dates)) (dateRangeSql web column op (dated dates')) := by
  have hors : Alike
      (joined " OR " ((dated dates).map (fun v ↦ [.code "("] ++ within web column v ++ [.code ")"])))
      (joined " OR "
        ((dated dates').map (fun v ↦ [.code "("] ++ within web column v ++ [.code ")"]))) :=
    joined_dated_alike " OR " hlength fun date date' ↦
      ((Alike.refl _).append (within_alike column date date')).append (.refl _)
  have hands := joined_dated_alike " AND " hlength (@outside_alike web column)
  have hvalue : Alike ((dated dates).headD []) ((dated dates').headD []) ∧
      Alike (dateBounds web ((dated dates).headD [])).1 (dateBounds web ((dated dates').headD [])).1 ∧
      Alike (dateBounds web ((dated dates).headD [])).2 (dateBounds web ((dated dates').headD [])).2 ∧
      Alike (within web column ((dated dates).headD []))
        (within web column ((dated dates').headD [])) ∧
      Alike (outside web column ((dated dates).headD []))
        (outside web column ((dated dates').headD [])) := by
    cases dates with
    | nil =>
      obtain rfl : dates' = [] := List.eq_nil_of_length_eq_zero hlength.symm
      exact ⟨.refl _, .refl _, .refl _, .refl _, .refl _⟩
    | cons date dates =>
      cases dates' with
      | nil => cases hlength
      | cons date' dates' =>
        obtain ⟨hlow, hhigh⟩ := @dateBounds_alike web date date'
        exact ⟨.strings rfl rfl, hlow, hhigh, within_alike column date date',
          outside_alike column date date'⟩
  obtain ⟨hhead, hlow, hhigh, hwithin, houtside⟩ := hvalue
  simp only [dateRangeSql, isNull_dated, Bool.false_eq_true, false_and, if_false]
  exact .ite (((Alike.refl _).append hors).append (.refl _)) <|
    .ite (((Alike.refl _).append hands).append (.refl _)) <| .ite hwithin <| .ite houtside <|
    .ite ((Alike.refl _).append hhigh) <| .ite ((Alike.refl _).append hlow) <|
    .ite ((Alike.refl _).append hlow) <| .ite ((Alike.refl _).append hhigh) <| .ite hwithin <|
    .ite houtside ((Alike.refl _).append hhead)

/-- The values of a date column are dates. -/
theorem sqlValues_dated {column : String} (hcolumn : dateColumn term.attr = some column)
    (h : ∀ value ∈ values term.val, ¬Special term.attr value) :
    sqlValues web term = dated ((values term.val).map web.dateTime) := by
  have hattr : term.attr = "Date" ∨ term.attr = "StartDate" ∨ term.attr = "EndDate" := by
    rw [dateColumn] at hcolumn
    split_ifs at hcolumn <;> tauto
  have hvalue : ∀ value ∈ values term.val, sqlValue web term value = [.date (web.dateTime value)] := by
    intro value hvalue
    obtain ⟨hnull, hnow, -⟩ := ne_of_not_special (h value hvalue)
    rcases hattr with hattr | hattr | hattr <;>
      simp [sqlValue, hattr, hnull, hnow, silentAttr, textAttr, serverAttr, dateTimeAttr, dateAttr]
  have hgroup : term.attr ≠ "Group" := by
    rcases hattr with hattr | hattr | hattr <;> simp [hattr]
  rw [sqlValues, if_neg hgroup, dated, List.map_map]
  exact List.map_congr_left hvalue

theorem isTag_eq_false (hweb : web.Documented) (term : FilterTerm) {tag literal : String}
    (htag : tag ∈ ["0", "-1"]) (hquotes : literal.toList = '\'' :: tag.toList ++ ['\''])
    (h : ∀ value ∈ values term.val, ¬Special term.attr value) :
    isTag web term (sqlValues web term) literal = false := by
  by_cases hattr : term.attr = "Tags"
  · have hne : render web ((sqlValues web term).headD []) ≠ literal.toList := by
      intro heq
      have hall : ∀ tag ∈ ["0", "-1"], '\'' ∉ tag.toList ∧ '\\' ∉ tag.toList := by decide
      have hplain : ∀ c ∈ tag.toList, c ≠ '\'' ∧ c ≠ '\\' := by
        intro c hc
        exact ⟨fun h ↦ (hall tag htag).1 (h ▸ hc), fun h ↦ (hall tag htag).2 (h ▸ hc)⟩
      rw [hquotes] at heq
      cases hvalues : values term.val with
      | nil => simp [sqlValues, hattr, hvalues, render] at heq
      | cons value rest =>
        have htext (text : String) (hquoted : (sqlValues web term).headD [] = [.quoted text]) :
            text = tag := by
          rw [hquoted] at heq
          have hliteral := hweb.dbEscape text
          have hrender : (web.dbEscape text).toList = '\'' :: tag.toList ++ ['\''] := by
            simpa [render, Piece.render] using heq
          rw [hrender] at hliteral
          exact String.toList_inj.mp (eq_of_literal_of_plain hplain hliteral)
        have hspecial : value ≠ tag := by
          intro hvalue
          exact h value (by simp [hvalues]) (.inr (.inr ⟨hattr, hvalue ▸ htag⟩))
        by_cases hlike : isLike term.op ∧ '%' ∉ term.val.print.toList
        · have hwrapped := htext ("%" ++ value ++ "%") (by
            simp [sqlValues, hattr, hvalues, sqlValue, silentAttr, textAttr, hlike])
          have hpercent : ∀ tag ∈ ["0", "-1"], '%' ∉ tag.toList := by decide
          apply hpercent tag htag
          rw [← hwrapped]
          simp [String.toList_append]
        · exact hspecial (htext value (by
            simp [sqlValues, hattr, hvalues, sqlValue, silentAttr, textAttr, hlike]))
    rw [isTag, decide_eq_false hne, Bool.and_false]
  · simp [isTag, hattr]

/-- A tag is special by its value alone. -/
theorem isTags_eq_false (hweb : web.Documented) (term : FilterTerm)
    (h : ∀ value ∈ values term.val, ¬Special term.attr value) :
    isTag web term (sqlValues web term) "'0'" = false ∧
      isTag web term (sqlValues web term) "'-1'" = false :=
  ⟨@isTag_eq_false _ hweb term "0" _ (by simp) (by decide) h,
    @isTag_eq_false _ hweb term "-1" _ (by simp) (by decide) h⟩

theorem headD_alike {parts parts' : List (List Piece)} (h : List.Forall₂ Alike parts parts') :
    Alike (parts.headD []) (parts'.headD []) := by
  cases h with
  | nil => exact .nil
  | cons hpart _ => exact hpart

theorem map_alike {parts parts' : List (List Piece)} (h : List.Forall₂ Alike parts parts')
    {f : List Piece → List Piece} (hf : ∀ part part', Alike part part' → Alike (f part) (f part')) :
    List.Forall₂ Alike (parts.map f) (parts'.map f) := by
  rw [List.forall₂_map_left_iff, List.forall₂_map_right_iff]
  exact h.imp hf

theorem comparisonSql_alike {operator : List Piece} {parts parts' : List (List Piece)}
    (h : List.Forall₂ Alike parts parts')
    (htag : isTag web term parts "'0'" = false ∧ isTag web term parts "'-1'" = false)
    (htag' : isTag web term parts' "'0'" = false ∧ isTag web term parts' "'-1'" = false) :
    Alike (comparisonSql web term operator parts) (comparisonSql web term operator parts') := by
  have hlength := h.length_eq
  have hempty : parts = [] ↔ parts' = [] := by
    rw [← List.length_eq_zero_iff, ← List.length_eq_zero_iff, hlength]
  have hors : Alike
      (joined " OR " (parts.map (fun value ↦ leftSql web term ++ operator ++ value)))
      (joined " OR " (parts'.map (fun value ↦ leftSql web term ++ operator ++ value))) :=
    .joined (map_alike h fun _ _ hpart ↦ (Alike.refl (leftSql web term ++ operator)).append hpart)
  have hlist : Alike
      (if parts = [] then [.code "(SELECT NULL WHERE 1!=1)"]
        else [.code "("] ++ joined "," parts ++ [.code ")"])
      (if parts' = [] then [.code "(SELECT NULL WHERE 1!=1)"]
        else [.code "("] ++ joined "," parts' ++ [.code ")"]) := by
    simp only [hempty]
    exact .ite (.refl _) (((Alike.refl _).append (.joined h)).append (.refl _))
  simp only [comparisonSql, htag, htag', hlength, Bool.false_eq_true, if_false]
  exact .ite (((Alike.refl _).append hors).append (.refl _)) <|
    .ite ((Alike.refl _).append hlist) ((Alike.refl _).append (headD_alike h))

theorem stillRunning_alike (operator : List Piece) {part part' : List Piece}
    (h : Alike part part') : Alike (stillRunning operator part) (stillRunning operator part') := by
  have hfirst := (((Alike.refl [.code "(E.StartDateTime >= DATE_SUB("]).append h).append
    (.refl [.code ", INTERVAL 1 DAY) AND (E.EndDateTime IS NULL OR E.EndDateTime"])).append
      (.refl operator)
  have hsecond := ((hfirst.append h).append (.refl [.code (") AND " ++ effectiveEndSql)])).append
    (.refl operator)
  exact (hsecond.append h).append (.refl _)

theorem conditionSql_alike (hweb : web.Documented) (hgroup : term.attr ≠ "Group")
    (hyes : term.val ≠ .yes) (hyes' : val' ≠ .yes)
    (hlength : (values term.val).length = (values val').length)
    (h : ∀ value ∈ values term.val, ¬Special term.attr value)
    (h' : ∀ value ∈ values val', ¬Special term.attr value) :
    Alike (conditionSql web term) (conditionSql web { term with val := val' }) := by
  have hoperator := sqlOperator_eq hyes hyes' h h'
  simp only [conditionSql, hoperator]
  cases hcolumn : dateColumn term.attr with
  | some column =>
    have hvalues : sqlValues web term = dated ((values term.val).map web.dateTime) :=
      sqlValues_dated hcolumn h
    have hvalues' : sqlValues web { term with val := val' } = dated ((values val').map web.dateTime) :=
      sqlValues_dated hcolumn h'
    rw [hvalues, hvalues']
    refine dateRangeSql_alike column term.op ?_
    rw [List.length_map, List.length_map, hlength]
  | none =>
    have hvalues : List.Forall₂ Alike (sqlValues web term)
        (sqlValues web { term with val := val' }) := sqlValues_alike hgroup hlength h h'
    have hempty : sqlValues web term = [] ↔ sqlValues web { term with val := val' } = [] := by
      rw [← List.length_eq_zero_iff, ← List.length_eq_zero_iff, hvalues.length_eq]
    have hrunning := map_alike hvalues fun part part' hpart ↦
      stillRunning_alike (sqlOperator term) hpart
    have hcomparison : Alike (comparisonSql web term (sqlOperator term) (sqlValues web term))
        (comparisonSql web term (sqlOperator term) (sqlValues web { term with val := val' })) :=
      comparisonSql_alike hvalues (isTags_eq_false hweb term h)
        (isTags_eq_false hweb { term with val := val' } h')
    have hlower : lowerBound { term with val := val' } = lowerBound term := rfl
    simp only [hlower, ne_eq, hempty, hvalues.length_eq]
    exact .ite (.ite (((Alike.refl _).append (.joined hrunning)).append (.refl _))
      (stillRunning_alike _ (headD_alike hvalues))) hcomparison

/-- The SQL of a term as the database cuts it; what the literals hold is left out. -/
def sqlShape (web : Web) (term : FilterTerm) : Option (List Part) :=
  (sql web term).map (fun pieces ↦ (scan (render web pieces)).map Part.shape)

theorem scan_alike (hweb : web.Documented) {term' : FilterTerm} (h : Alike pieces pieces')
    (hsafe : AllSafe term pieces) (hsafe' : AllSafe term' pieces') :
    (scan (render web pieces)).map Part.shape = (scan (render web pieces')).map Part.shape :=
  shape_finish (h.shape_run hweb hsafe hsafe' rfl begin_outside begin_outside)

/-- The brackets do not depend on the value. -/
theorem sql_alike
    (h : Alike (conditionSql web term) (conditionSql web { term with val := val' })) :
    (sql web term = none ∧ sql web { term with val := val' } = none) ∨
      ∃ pieces ∈ sql web term, ∃ pieces' ∈ sql web { term with val := val' },
        Alike pieces pieces' := by
  simp only [sql, sqlWith]
  by_cases hempty : Php.isEmpty term.attr.toList
  · refine .inr ⟨[], by simp [hempty], [], by simp [hempty], .nil⟩
  simp only [hempty, Bool.false_eq_true, if_false]
  cases brackets web '(' term.obr with
  | none => exact .inl ⟨rfl, rfl⟩
  | some opening =>
    cases brackets web ')' term.cbr with
    | none => exact .inl ⟨rfl, rfl⟩
    | some closing =>
      exact .inr ⟨_, rfl, _, rfl, (((Alike.refl _).append h).append (.refl _)).append (.refl _)⟩

theorem sqlShape_eq (hweb : web.Documented) (hgroup : term.attr ≠ "Group")
    (hyes : term.val ≠ .yes) (hyes' : val' ≠ .yes)
    (hlength : (values term.val).length = (values val').length)
    (h : ∀ value ∈ values term.val, ¬Special term.attr value)
    (h' : ∀ value ∈ values val', ¬Special term.attr value) :
    sqlShape web term = sqlShape web { term with val := val' } := by
  have hcondition := conditionSql_alike hweb hgroup hyes hyes' hlength h h'
  rcases sql_alike hcondition with ⟨hnone, hnone'⟩ | ⟨pieces, hpieces, pieces', hpieces', halike⟩
  · rw [sqlShape, sqlShape, hnone, hnone']
  · have hscan := scan_alike hweb halike (sql_safe hweb pieces hpieces)
      (sql_safe hweb pieces' hpieces')
    rw [Option.mem_def] at hpieces hpieces'
    rw [sqlShape, sqlShape, hpieces, hpieces', Option.map_some, Option.map_some, hscan]

end TwoRuns

/-- Two terms that agree in all but their value. -/
def Term.AgreeExceptVal (term term' : Term) : Prop := term' = { term with val := term'.val }

/-- What a term's value may not be for the SQL to be the same with every other such value: the
code knows it by name, or it compares as equal to each of the names. -/
def FilterTerm.Ordinary (term : FilterTerm) : Prop :=
  term.val ≠ .yes ∧ ∀ value ∈ values term.val, ¬Special term.attr value

instance (term : FilterTerm) : Decidable term.Ordinary := inferInstanceAs (Decidable (_ ∧ _))

/-- The values of a term end up in literals only, and what is outside of literals in quotes are
the parts that are no such literals. -/
theorem termSql_literals (hweb : web.Documented) :
    (∀ term term' : Term, term.AgreeExceptVal term' → (construct web term).attr ≠ "Group" →
      (construct web term).Ordinary → (construct web term').Ordinary →
      (values (construct web term).val).length = (values (construct web term').val).length →
      sqlShape web (construct web term) = sqlShape web (construct web term')) ∧
    ∀ term : Term, ∀ pieces ∈ termSql web term,
      AllSafe (construct web term) pieces ∧
        (begin.run (render web pieces)).Outside ∧
        (scan (render web pieces)).flatMap Part.text = pieces.flatMap (Piece.bare web) := by
  refine ⟨?_, ?_⟩
  · intro term term' hagree hgroup hplain hplain' hlength
    have hterm : construct web term' =
        { construct web term with val := (construct web term').val } := by
      rw [hagree]
      rfl
    have hattr : (construct web term').attr = (construct web term).attr := by rw [hterm]
    have hspecial := hplain'.2
    rw [hattr] at hspecial
    rw [hterm]
    exact sqlShape_eq hweb hgroup hplain.1 hplain'.1 hlength hplain.2 hspecial
  · intro term pieces hpieces
    have hsafe := sql_safe hweb pieces hpieces
    obtain ⟨hout, htext⟩ := run_render hweb hsafe begin_outside
    exact ⟨hsafe, hout, htext⟩

/-- A page with the database's own quoting, no dates and two groups of monitors. -/
def plainWeb : Web where
  dbEscape text := String.ofList (quote text.toList)
  intval _ := 0
  dateTime _ := "1970-01-01 00:00:00"
  nextDay _ := "1970-01-02 00:00:00"
  monitorIds group := if group = "1" then [1, 2] else if group = "2" then [3] else []
  serverId := none
  sameAsInt _ := false
  repeatCount _ := none

theorem plainWeb_documented : plainWeb.Documented where
  dbEscape := by
    intro text
    have hlist : (plainWeb.dbEscape text).toList = quote text.toList := String.toList_ofList
    rw [hlist]
    exact literal_quote text.toList
  dateTime := by
    intro text
    have hdate : "1970-01-01 00:00:00".toList.all dateChar := by decide
    exact List.all_eq_true.mp hdate
  nextDay := by
    intro day
    have hdate : "1970-01-02 00:00:00".toList.all dateChar := by decide
    exact List.all_eq_true.mp hdate

def oneTerm (attr op : String) (val : Scalar) : Term where
  attr := some attr
  op := some (.text op)
  val := some (.scalar val)
  cnj := none
  obr := none
  cbr := none
  tablename := none
  collate := none

theorem termSql_name :
    sqlShape plainWeb (construct plainWeb (oneTerm "Name" "=" (.text "' OR 1=1 -- "))) =
        sqlShape plainWeb (construct plainWeb (oneTerm "Name" "=" (.text "Event"))) ∧
      ∀ pieces ∈ termSql plainWeb (oneTerm "Name" "=" (.text "' OR 1=1 -- ")),
        AllSafe (construct plainWeb (oneTerm "Name" "=" (.text "' OR 1=1 -- "))) pieces ∧
          (begin.run (render plainWeb pieces)).Outside ∧
          (scan (render plainWeb pieces)).flatMap Part.text =
            pieces.flatMap (Piece.bare plainWeb) :=
  ⟨(termSql_literals plainWeb_documented).1 _ _ rfl (by decide +kernel) (by decide +kernel)
    (by decide +kernel) (by decide +kernel), (termSql_literals plainWeb_documented).2 _⟩

/-- The members of a group come from the database, as many as there are; `true` compares as equal
to `Odd`; and a keyword keeps the case it was written in. -/
theorem sqlShape_ne :
    (¬∀ web : Web, web.Documented → ∀ term term' : Term, term.AgreeExceptVal term' →
      (construct web term).Ordinary → (construct web term').Ordinary →
      (values (construct web term).val).length = (values (construct web term').val).length →
      sqlShape web (construct web term) = sqlShape web (construct web term')) ∧
    (¬∀ web : Web, web.Documented → ∀ term term' : Term, term.AgreeExceptVal term' →
      (construct web term).attr ≠ "Group" →
      (∀ value ∈ values (construct web term).val, ¬Special (construct web term).attr value) →
      (∀ value ∈ values (construct web term').val, ¬Special (construct web term').attr value) →
      (values (construct web term).val).length = (values (construct web term').val).length →
      sqlShape web (construct web term) = sqlShape web (construct web term')) ∧
    (termSql plainWeb (oneTerm "StorageId" "=" (.text "null"))).map (render plainWeb) =
      some "  E.StorageId = null\n".toList := by
  refine ⟨?_, ?_, by decide +kernel⟩
  · intro h
    have hgroup := h plainWeb plainWeb_documented (oneTerm "Group" "=" (.text "1"))
      (oneTerm "Group" "=" (.text "2")) rfl (by decide +kernel) (by decide +kernel)
      (by decide +kernel)
    revert hgroup
    decide +kernel
  · intro h
    have hyes := h plainWeb plainWeb_documented (oneTerm "Id" "IS" .yes)
      (oneTerm "Id" "IS" (.text "7")) rfl (by decide +kernel) (by decide +kernel)
      (by decide +kernel) (by decide +kernel)
    revert hyes
    decide +kernel

end ZoneMinder.WebFilter
