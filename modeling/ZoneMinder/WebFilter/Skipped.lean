import ZoneMinder.WebFilter.Balanced

namespace ZoneMinder.WebFilter

open Lib Lib.Literals

/-- How many brackets a term asks for. -/
def asked (web : Web) (count : Option String) : ℤ := (count.map web.intval).getD 0

def termBrackets (web : Web) (term : FilterTerm) : List Char :=
  List.replicate (asked web term.obr).toNat '(' ++ List.replicate (asked web term.cbr).toNat ')'

/-- No count is negative, and what the terms open they close in this order. -/
def BracketsBalance (web : Web) (terms : List FilterTerm) : Prop :=
  (∀ term ∈ terms, 0 ≤ asked web term.obr ∧ 0 ≤ asked web term.cbr) ∧
    Balanced '(' ')' (terms.flatMap (termBrackets web))

/-- `str_repeat` takes a text for the integer it is converted to. -/
def Web.Counted (web : Web) : Prop :=
  ∀ count, ∀ n ∈ web.repeatCount count, web.intval count = n

def repeatable (web : Web) (count : Option String) : Bool :=
  count.all (fun count ↦ (web.repeatCount count).isSome)

variable {web : Web} {term : FilterTerm} {terms : List FilterTerm}
  {pieces pieces' body sql sql' : List Piece} {bodies : List (List Piece)}

theorem isSome_brackets (bracket : Char) (count : Option String) :
    (brackets web bracket count).isSome = repeatable web count := by
  cases count with
  | none => rfl
  | some count => simp [brackets, repeatable]

theorem codeNest_brackets (hweb : web.Counted) {bracket : Char} {count : Option String}
    (h : brackets web bracket count = some pieces) :
    codeNest pieces = nest '(' ')' (List.replicate (asked web count).toNat bracket) := by
  cases count with
  | none =>
    obtain rfl : [] = pieces := by simpa [brackets] using h
    rfl
  | some count =>
    obtain ⟨n, hn, rfl⟩ := Option.map_eq_some_iff.mp h
    have hspace : nest '(' ')' (Piece.code " ").codeText = 1 := by decide
    have hasked : (asked web (some count)).toNat = n := by simp [asked, hweb count n hn]
    rw [codeNest_cons, codeNest_cons, codeNest_nil, hspace, one_mul, mul_one, hasked,
      nest_codeText_code, String.toList_ofList]

theorem isSome_bodySql (hattr : Php.isEmpty term.attr.toList = false) :
    (bodySql web term).isSome = (repeatable web term.obr && repeatable web term.cbr) := by
  rw [bodySql, sqlWith, if_neg (by simp [hattr]), ← isSome_brackets '(', ← isSome_brackets ')']
  cases brackets web '(' term.obr with
  | none => rfl
  | some opening => cases brackets web ')' term.cbr <;> rfl

/-- What a term opens and closes outside of itself is what it asks for. -/
theorem codeNest_bodySql (hweb : web.Counted) (hattr : Php.isEmpty term.attr.toList = false)
    (h : bodySql web term = some body) :
    codeNest body = nest '(' ')' (termBrackets web term) := by
  rw [bodySql, sqlWith, if_neg (by simp [hattr])] at h
  obtain ⟨opening, hopening, h⟩ := Option.bind_eq_some_iff.mp h
  obtain ⟨closing, hclosing, h⟩ := Option.bind_eq_some_iff.mp h
  rw [Option.pure_def, Option.some.injEq] at h
  have hspace : codeNest [.code " "] = 1 := by decide
  have hline : codeNest [.code "\n"] = 1 := by decide
  have hcondition := (@conditionSql_level web term).nest_eq
  rw [← h, termBrackets, nest_append, ← codeNest_brackets hweb hopening,
    ← codeNest_brackets hweb hclosing]
  simp only [conjunction, codeNest_append, codeNest_nil, hspace, hline, hcondition, one_mul, mul_one]

/-- Something was written once there is a body. -/
theorem Conjoined.isEmpty_render (h : Conjoined bodies sql)
    (hheads : ∀ body ∈ bodies, body.head? = some (.code " ")) (hne : bodies ≠ []) :
    Php.isEmpty (render web sql) = false := by
  have hblank : ∃ rest, render web sql = ' ' :: rest := by
    induction h with
    | nil => exact absurd rfl hne
    | first body hbefore =>
      rcases hbefore with rfl | rfl
      · obtain ⟨rest, rfl⟩ := List.head?_eq_some_iff.mp (hheads body (by simp))
        exact ⟨render web rest, rfl⟩
      · exact ⟨_, rfl⟩
    | @next bodies pieces hbodies hne' cnj hcnj body ih =>
      obtain ⟨rest, hrest⟩ := ih (fun body hbody ↦ hheads body (by simp [hbody])) hne'
      refine ⟨rest ++ render web ([.code " ", .listed cnj] ++ body), ?_⟩
      rw [render_append, hrest, List.cons_append]
  obtain ⟨rest, hrest⟩ := hblank
  simp [hrest, Php.isEmpty]

/-- What the loop has written for the terms so far. -/
structure Written (web : Web) (terms : List FilterTerm) (sql : List Piece) : Prop where
  outside : (begin.run (render web sql)).Outside
  nest_text : nest '(' ')' (begin.run (render web sql)).text =
    nest '(' ')' ((terms.filter emitted).flatMap (termBrackets web))
  conjoined : ∃ bodies, (terms.filter emitted).mapM (bodySql web) = some bodies ∧
    Conjoined bodies sql ∧ ∀ body ∈ bodies, body.head? = some (.code " ")

theorem Written.nil : Written web [] [] where
  outside := begin_outside
  nest_text := rfl
  conjoined := ⟨[], rfl, .nil, by simp⟩

theorem conjunctionIn_valid (sql : List Piece) (term : FilterTerm) :
    ∀ text ∈ conjunctionIn web sql term.cnj, text = "" ∨ text ∈ validConjunctionTypes := by
  intro text htext
  rw [conjunctionIn] at htext
  split_ifs at htext with hsql hcnj hcnj
  · obtain rfl : "" = text := by simpa using htext
    exact .inl rfl
  · cases htext
  · obtain rfl : "and" = text := by simpa using htext
    exact .inr (by decide)
  · obtain rfl : term.cnj = text := by simpa using htext
    exact term.cnj_valid

theorem codeNest_conjunction (cnj : Option String) : codeNest (conjunction cnj) = 1 := by
  cases cnj with
  | none => rfl
  | some cnj =>
    have hspace : codeNest [.code " "] = 1 := by decide
    rw [conjunction, codeNest_cons, codeNest_cons, nest_codeText_listed, one_mul, ← codeNest_cons]
    exact hspace

theorem Conjoined.eq_nil (h : Conjoined bodies sql) (hbodies : bodies = []) : sql = [] := by
  cases h with
  | nil => rfl
  | first body hbefore => cases hbodies
  | next h hne hcnj body => exact absurd hbodies (by simp)

theorem Conjoined.add (h : Conjoined bodies sql)
    (hheads : ∀ body ∈ bodies, body.head? = some (.code " ")) (term : FilterTerm)
    (body : List Piece) :
    Conjoined (bodies ++ [body])
      (sql ++ (conjunction (conjunctionIn web sql term.cnj) ++ body)) := by
  by_cases hbodies : bodies = []
  · obtain rfl := h.eq_nil hbodies
    subst hbodies
    have hempty : Php.isEmpty (render web []) := rfl
    refine .first body ?_
    rw [conjunctionIn, if_pos hempty]
    split_ifs
    · exact .inr rfl
    · exact .inl rfl
  · have hsql : Php.isEmpty (render web sql) = false := h.isEmpty_render hheads hbodies
    rw [conjunctionIn, if_neg (by simp [hsql])]
    refine h.next hbodies ?_ body
    split_ifs with hcnj
    · decide
    · exact term.cnj_valid.resolve_left hcnj

/-- The step of the loop. -/
theorem Written.add (hweb : web.Documented) (hcounted : web.Counted) (h : Written web terms sql)
    (hadd : addTerm web sql term = some sql') : Written web (terms ++ [term]) sql' := by
  rw [addTerm_eq] at hadd
  split_ifs at hadd with hemitted
  · have hattr : Php.isEmpty term.attr.toList = false := by
      rw [emitted, Bool.and_eq_true, Bool.not_eq_true'] at hemitted
      exact hemitted.2
    have hfilter : (terms ++ [term]).filter emitted = terms.filter emitted ++ [term] := by
      simp [hemitted]
    obtain ⟨body, hbody, rfl⟩ := Option.map_eq_some_iff.mp hadd
    have hsql : sqlWith web term (conjunctionIn web sql term.cnj) =
        some (conjunction (conjunctionIn web sql term.cnj) ++ body) := by
      rw [sqlWith_eq hattr, hbody, Option.map_some]
    have hsafe := sqlWith_safe hweb (conjunctionIn_valid sql term) _ hsql
    obtain ⟨houtside, htext⟩ := run_render hweb hsafe h.outside
    rw [← Literals.run_append, ← render_append] at houtside htext
    refine ⟨houtside, ?_, ?_⟩
    · rw [htext, nest_append, h.nest_text, nest_flatMap_bare hsafe, codeNest_append,
        codeNest_conjunction, one_mul, codeNest_bodySql hcounted hattr hbody, hfilter,
        List.flatMap_append, nest_append, List.flatMap_singleton]
    · obtain ⟨bodies, hbodies, hconjoined, hheads⟩ := h.conjoined
      refine ⟨bodies ++ [body], ?_, hconjoined.add hheads term body, ?_⟩
      · rw [hfilter, List.mapM_append, hbodies, List.mapM_cons, hbody]
        rfl
      · intro body' hbody'
        rcases List.mem_append.mp hbody' with hbody' | hbody'
        · exact hheads body' hbody'
        · rw [List.mem_singleton.mp hbody']
          exact bodySql_head hattr hbody
  · obtain rfl : sql = sql' := Option.some.inj hadd
    have hfilter : (terms ++ [term]).filter emitted = terms.filter emitted := by simp [hemitted]
    refine ⟨h.outside, ?_, ?_⟩
    · rw [hfilter]
      exact h.nest_text
    · rw [hfilter]
      exact h.conjoined

theorem written (hweb : web.Documented) (hcounted : web.Counted)
    (h : terms.foldlM (addTerm web) [] = some sql) : Written web terms sql := by
  induction terms using List.reverseRecOn generalizing sql with
  | nil =>
    obtain rfl : [] = sql := Option.some.inj h
    exact .nil
  | append_singleton terms term ih =>
    rw [List.foldlM_append] at h
    obtain ⟨sql', hsql', hterm⟩ := Option.bind_eq_some_iff.mp h
    rw [List.foldlM_cons] at hterm
    obtain ⟨sql'', hadd, hlast⟩ := Option.bind_eq_some_iff.mp hterm
    obtain rfl : sql'' = sql := Option.some.inj hlast
    exact (ih hsql').add hweb hcounted hadd

theorem isSome_foldlM (terms : List FilterTerm) (sql : List Piece) :
    (terms.foldlM (addTerm web) sql).isSome ↔
      ∀ term ∈ terms.filter emitted, repeatable web term.obr ∧ repeatable web term.cbr := by
  induction terms generalizing sql with
  | nil => simp
  | cons term terms ih =>
    rw [List.foldlM_cons, addTerm_eq]
    by_cases hemitted : emitted term
    · have hattr : Php.isEmpty term.attr.toList = false := by
        rw [emitted, Bool.and_eq_true, Bool.not_eq_true'] at hemitted
        exact hemitted.2
      have hbody := @isSome_bodySql web term hattr
      rw [if_pos hemitted, List.filter_cons_of_pos hemitted, List.forall_mem_cons]
      cases hsql : bodySql web term with
      | none =>
        rw [hsql, Option.isSome_none, eq_comm, Bool.and_eq_false_iff] at hbody
        constructor
        · intro h
          cases h
        · rintro ⟨⟨hobr, hcbr⟩, -⟩
          rcases hbody with hbody | hbody
          · rw [hbody] at hobr
            cases hobr
          · rw [hbody] at hcbr
            cases hcbr
      | some body =>
        rw [hsql, Option.isSome_some, eq_comm, Bool.and_eq_true] at hbody
        exact (ih _).trans ⟨fun h ↦ ⟨hbody, h⟩, And.right⟩
    · rw [if_neg hemitted, List.filter_cons_of_neg (by simpa using hemitted)]
      exact ih sql

/-- The terms that add to the SQL, in their order. -/
def emittedTerms (web : Web) (terms : List Term) : List FilterTerm :=
  (terms.map (construct web)).filter emitted

/-- What is said of the SQL of a filter, whichever of its terms add none. -/
def KeepsBrackets (web : Web) (terms : List Term) : Prop :=
  (BracketsBalance web (terms.map (construct web)) →
    ∃ pieces, filterSql web terms = some pieces ∧
      Balanced '(' ')' ((scan (render web pieces)).flatMap Part.text) ∧
      ∃ bodies, (emittedTerms web terms).mapM (bodySql web) = some bodies ∧
        Conjoined bodies pieces) ∧
    (filterSql web terms).isSome

theorem isSome_filterSql (terms : List Term) :
    (filterSql web terms).isSome ↔
      ∀ term ∈ emittedTerms web terms, repeatable web term.obr ∧ repeatable web term.cbr :=
  isSome_foldlM (terms.map (construct web)) []

/-- The brackets of a term that adds no SQL go with it. -/
theorem keepsBrackets_iff (hweb : web.Documented) (hcounted : web.Counted) (terms : List Term) :
    KeepsBrackets web terms ↔
      (∀ term ∈ emittedTerms web terms, repeatable web term.obr ∧ repeatable web term.cbr) ∧
        (BracketsBalance web (terms.map (construct web)) →
          Balanced '(' ')' ((emittedTerms web terms).flatMap (termBrackets web))) := by
  have hbalanced {pieces : List Piece} (hpieces : filterSql web terms = some pieces) :
      Balanced '(' ')' ((scan (render web pieces)).flatMap Part.text) ↔
        Balanced '(' ')' ((emittedTerms web terms).flatMap (termBrackets web)) := by
    rw [balanced_iff_nest (by decide), balanced_iff_nest (by decide)]
    exact Eq.congr_left (written hweb hcounted hpieces).nest_text
  rw [KeepsBrackets, isSome_filterSql]
  constructor
  · rintro ⟨hkept, hrepeatable⟩
    refine ⟨hrepeatable, ?_⟩
    intro hall
    obtain ⟨pieces, hpieces, htext, -⟩ := hkept hall
    exact (hbalanced hpieces).mp htext
  · rintro ⟨hrepeatable, hkept⟩
    refine ⟨?_, hrepeatable⟩
    intro hall
    obtain ⟨pieces, hpieces⟩ := Option.isSome_iff_exists.mp ((isSome_filterSql terms).mpr hrepeatable)
    obtain ⟨bodies, hbodies, hconjoined, -⟩ := (written hweb hcounted hpieces).conjoined
    exact ⟨pieces, hpieces, (hbalanced hpieces).mpr (hkept hall), bodies, hbodies, hconjoined⟩

/-- The integer that a text is read as, where it is an integer. -/
def signed (text : String) : ℤ :=
  match text.toList with
  | '-' :: digits => -Php.intval digits
  | digits => Php.intval digits

/-- A page that reads the counts of brackets as integers. -/
def countingWeb : Web where
  dbEscape := plainWeb.dbEscape
  intval text := signed text
  dateTime := plainWeb.dateTime
  nextDay := plainWeb.nextDay
  monitorIds _ := []
  serverId := none
  sameAsInt text := Php.decimal (signed text) = text.toList
  repeatCount text := if 0 ≤ signed text then some (signed text).toNat else none

theorem countingWeb_documented : countingWeb.Documented where
  dbEscape := plainWeb_documented.dbEscape
  dateTime := plainWeb_documented.dateTime
  nextDay := plainWeb_documented.nextDay

theorem countingWeb_counted : countingWeb.Counted := by
  intro count n hn
  obtain ⟨hpos, heq⟩ := Option.ite_none_right_eq_some.mp hn
  rw [← Option.some.inj heq]
  exact (Int.toNat_of_nonneg hpos).symm

def bracketed (attr : String) (val : Scalar) (obr cbr : Option String) : Term :=
  { oneTerm attr "=" val with obr := obr, cbr := cbr }

def bothBrackets : List Term :=
  [bracketed "Id" (.text "5") (some "1") none, bracketed "Id" (.text "6") none (some "1")]

theorem keepsBrackets_both : KeepsBrackets countingWeb bothBrackets :=
  (keepsBrackets_iff countingWeb_documented countingWeb_counted bothBrackets).mpr
    ⟨by decide +kernel, fun _ ↦ (balanced_iff_nest (by decide) _).mpr (by decide +kernel)⟩

/-- A bracket that opens at a term without a value is closed all the same, and a count that the
constructor takes ends the request. -/
theorem not_keepsBrackets :
    ¬KeepsBrackets countingWeb
        [bracketed "Id" (.text "") (some "1") none, bracketed "Id" (.text "5") none (some "1")] ∧
      filterSql countingWeb [bracketed "Id" (.text "5") (some "-1") none] = none := by
  refine ⟨?_, by decide +kernel⟩
  intro h
  have hsql : (filterSql countingWeb [bracketed "Id" (.text "") (some "1") none,
      bracketed "Id" (.text "5") none (some "1")]).map (fun pieces ↦
        nest '(' ')' ((scan (render countingWeb pieces)).flatMap Part.text)) = some ⟨1, 0⟩ := by
    decide +kernel
  obtain ⟨pieces, hpieces, hbalanced, -⟩ :=
    h.1 ⟨by decide +kernel, (balanced_iff_nest (by decide) _).mpr (by decide +kernel)⟩
  rw [balanced_iff_nest (by decide)] at hbalanced
  rw [hpieces, Option.map_some, hbalanced] at hsql
  exact absurd hsql (by decide)

end ZoneMinder.WebFilter
