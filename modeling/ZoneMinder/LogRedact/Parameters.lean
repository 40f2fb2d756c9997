import ZoneMinder.LogRedact.Redact

namespace ZoneMinder.LogRedact

open Php

variable {rt : Runtime}

section Matches

variable {text name value rest : Text}

/-- A text that another parameter begins with, or the end. -/
def Bounded (rest : Text) : Prop := ∀ c ∈ rest.head?, separator c = true

theorem bounded_nil : Bounded [] := fun _ h ↦ by cases h

/-- What begins with a separator makes no difference to a match before it. -/
theorem matchParameter_append (h : Bounded rest) (text : Text) :
    matchParameter (text ++ rest) =
      (matchParameter text).map (fun m ↦ (m.1, m.2.1, m.2.2 ++ rest)) := by
  have hname : ∀ c ∈ rest.head?, nameChar c = false := by
    intro c hc
    simp [nameChar, h c hc]
  have hvalue : ∀ c ∈ rest.head?, valueChar c = false := by
    intro c hc
    simp [valueChar, h c hc]
  simp only [matchParameter, Lib.takeWhile_append_head hname, Lib.dropWhile_append_head hname]
  cases text.takeWhile nameChar with
  | nil => rfl
  | cons c name =>
    cases hdrop : text.dropWhile nameChar with
    | nil =>
      cases rest with
      | nil => rfl
      | cons d rest =>
        have hd : d ≠ '=' := by
          intro hd
          have hsep := h d rfl
          rw [hd] at hsep
          cases hsep
        simp [hd]
    | cons d after =>
      by_cases hd : d = '='
      · subst hd
        simp [Lib.takeWhile_append_head hvalue, Lib.dropWhile_append_head hvalue]
      · simp [hd]

theorem replaceParameters_of_some {c : Char} (hc : c = '?' ∨ c = '&')
    (h : matchParameter text = some (name, value, rest)) :
    replaceParameters rt (c :: text) =
      c :: name ++ '=' :: shownValue rt name value ++ replaceParameters rt rest := by
  rw [replaceParameters, if_pos hc]
  split
  · rename_i heq
    rw [h] at heq
    obtain ⟨rfl, rfl, rfl⟩ := heq
    rfl
  · rename_i heq
    rw [h] at heq
    cases heq

theorem replaceParameters_of_none {c : Char}
    (h : (c = '?' ∨ c = '&') → matchParameter text = none) :
    replaceParameters rt (c :: text) = c :: replaceParameters rt text := by
  rw [replaceParameters]
  split_ifs with hc
  · split
    · rename_i heq
      rw [h hc] at heq
      cases heq
    · rfl
  · rfl

theorem replaceParameters_append (h : Bounded rest) (text : Text) :
    replaceParameters rt (text ++ rest) =
      replaceParameters rt text ++ replaceParameters rt rest := by
  fun_induction replaceParameters rt text with
  | case1 => rfl
  | case2 c cs hc name value after hmatch _ ih =>
    have happ : matchParameter (cs ++ rest) = some (name, value, after ++ rest) := by
      rw [matchParameter_append h, hmatch]
      rfl
    rw [List.cons_append, replaceParameters_of_some hc happ, ih]
    simp
  | case3 c cs hc hmatch ih =>
    have happ : matchParameter (cs ++ rest) = none := by
      rw [matchParameter_append h, hmatch]
      rfl
    rw [List.cons_append, replaceParameters_of_none fun _ ↦ happ, ih, List.cons_append]
  | case4 c cs hc ih =>
    rw [List.cons_append, replaceParameters_of_none fun h ↦ absurd h hc, ih, List.cons_append]

/-- A text in which no parameter can begin. -/
theorem replaceParameters_of_plain (h : ∀ c ∈ text, ¬(c = '?' ∨ c = '&')) :
    replaceParameters rt text = text := by
  induction text with
  | nil => rw [replaceParameters]
  | cons c text ih =>
    rw [replaceParameters_of_none fun hc ↦ absurd hc (h c List.mem_cons_self),
      ih fun c hc ↦ h c (List.mem_cons_of_mem _ hc)]

theorem matchParameter_of_notMem (h : '=' ∉ text) : matchParameter text = none := by
  rw [matchParameter]
  split
  · rename_i hdrop
    have hmem : '=' ∈ text.dropWhile nameChar := by rw [hdrop]; exact List.mem_cons_self
    exact absurd ((List.dropWhile_suffix nameChar).subset hmem) h
  · rfl

theorem redactQueryString_of_notMem (h : '=' ∉ text) : redactQueryString rt text = text := by
  have hreplace : replaceParameters rt text = text := by
    induction text with
    | nil => rw [replaceParameters]
    | cons c text ih =>
      have htext : '=' ∉ text := fun hmem ↦ h (List.mem_cons_of_mem c hmem)
      rw [replaceParameters_of_none fun _ ↦ matchParameter_of_notMem htext, ih htext]
  rw [redactQueryString, matchParameter_of_notMem h]
  exact hreplace

theorem redactQueryString_append (h : Bounded rest) (text : Text) :
    redactQueryString rt (text ++ rest) =
      redactQueryString rt text ++ replaceParameters rt rest := by
  simp only [redactQueryString, matchParameter_append h]
  cases matchParameter text with
  | none => exact replaceParameters_append h text
  | some m => simp [replaceParameters_append h]

end Matches

/-- What stands from one separator to the next. -/
structure Parameter where
  separator : Char
  name : Text
  value : Option Text
  separates : LogRedact.separator separator = true
  name_plain : ∀ c ∈ name, nameChar c = true
  value_plain : ∀ v ∈ value, ∀ c ∈ v, valueChar c = true

namespace Parameter

def text (p : Parameter) : Text :=
  p.separator :: p.name ++ (p.value.map ('=' :: ·)).getD []

/-- What follows a number sign, or has no name, is no parameter. -/
def kind (p : Parameter) : Option KeyKind :=
  if p.separator = '#' ∨ p.name = [] then none else logKeyKind (urldecode p.name)

def shown (rt : Runtime) (p : Parameter) : Text :=
  p.separator :: p.name ++ (p.value.map (fun value ↦ '=' ::
    match p.kind with
    | none => value
    | some .secret => "[redacted]".toList
    | some .token => logFingerprint rt (.string (urldecode value)))).getD []

/-- The two differ in the value at most, and only where the name says that it is a secret. -/
structure Alike (p q : Parameter) : Prop where
  separator : p.separator = q.separator
  name : p.name = q.name
  isSome : p.value.isSome = q.value.isSome
  value : p.kind ≠ some .secret → p.value = q.value

theorem separator_cases (p : Parameter) :
    (p.separator = '?' ∨ p.separator = '&') ∨ p.separator = '#' := by
  have h := p.separates
  simpa [LogRedact.separator, or_assoc] using h

theorem shown_of_kind {p : Parameter} (h : p.kind = none) : p.shown rt = p.text := by
  rw [shown, text, h]

theorem kind_eq {p q : Parameter} (h : p.Alike q) : p.kind = q.kind := by
  rw [kind, kind, h.separator, h.name]

theorem shown_eq {p q : Parameter} (h : p.Alike q) : p.shown rt = q.shown rt := by
  rw [shown, shown, kind_eq h, h.separator, h.name]
  by_cases hkind : p.kind = some .secret
  · have hsome := h.isSome
    rw [← kind_eq h, hkind]
    cases hp : p.value with
    | none =>
      rw [hp] at hsome
      rw [Option.isSome_eq_false_iff.mp hsome.symm |> Option.isNone_iff_eq_none.mp]
    | some v =>
      rw [hp] at hsome
      obtain ⟨w, hw⟩ := Option.isSome_iff_exists.mp hsome.symm
      rw [hw]
      rfl
  · rw [h.value hkind]

theorem bounded (p : Parameter) (rest : Text) : Bounded (p.text ++ rest) := by
  intro c hc
  obtain rfl := Option.some.inj hc
  exact p.separates

theorem text_plain (p : Parameter) :
    ∀ c ∈ p.name ++ (p.value.map ('=' :: ·)).getD [], ¬(c = '?' ∨ c = '&') := by
  have hname : ∀ c ∈ p.name, ¬(c = '?' ∨ c = '&') := by
    intro c hc hor
    have hplain := p.name_plain c hc
    rcases hor with rfl | rfl <;> cases hplain
  intro c hc hor
  rcases List.mem_append.mp hc with hc | hc
  · exact hname c hc hor
  · cases hvalue : p.value with
    | none =>
      rw [hvalue] at hc
      cases hc
    | some value =>
      rw [hvalue] at hc
      rcases List.mem_cons.mp hc with rfl | hc
      · rcases hor with hor | hor <;> cases hor
      · have hplain := p.value_plain value hvalue c hc
        rcases hor with rfl | rfl <;> cases hplain

theorem matchParameter_text (p : Parameter) :
    matchParameter (p.name ++ (p.value.map ('=' :: ·)).getD []) =
      if p.name = [] then none else p.value.map (fun value ↦ (p.name, value, [])) := by
  have htake := List.takeWhile_eq_self_iff.mpr p.name_plain
  have hdrop := List.dropWhile_eq_nil_iff.mpr p.name_plain
  cases hvalue : p.value with
  | none =>
    rw [matchParameter]
    simp [htake, hdrop]
  | some value =>
    have hv := p.value_plain value hvalue
    rw [matchParameter]
    simp only [List.takeWhile_append_of_pos p.name_plain,
      List.dropWhile_append_of_pos p.name_plain, Option.map_some, Option.getD_some]
    rw [List.takeWhile_cons_of_neg (by decide), List.dropWhile_cons_of_neg (by decide),
      List.append_nil]
    cases p.name with
    | nil => rfl
    | cons c name =>
      simp [List.takeWhile_eq_self_iff.mpr hv, List.dropWhile_eq_nil_iff.mpr hv]

/-- A parameter is written as what it is, with its value replaced where it has to be. -/
theorem replaceParameters_text (p : Parameter) : replaceParameters rt p.text = p.shown rt := by
  have hplain := @replaceParameters_of_plain rt _ p.text_plain
  have hmatch := p.matchParameter_text
  rcases p.separator_cases with hsep | hsep
  · by_cases hname : p.name = []
    · rw [if_pos hname] at hmatch
      rw [shown_of_kind (if_pos (.inr hname)), text, List.cons_append,
        replaceParameters_of_none fun _ ↦ hmatch, hplain]
    · rw [if_neg hname] at hmatch
      have hkind : p.kind = logKeyKind (urldecode p.name) := by
        refine if_neg ?_
        rintro (hhash | h)
        · rw [hhash] at hsep
          rcases hsep with hsep | hsep <;> cases hsep
        · exact hname h
      cases hvalue : p.value with
      | none =>
        rw [hvalue] at hmatch hplain
        rw [shown, text, hvalue, List.cons_append, replaceParameters_of_none fun _ ↦ hmatch, hplain]
        rfl
      | some value =>
        rw [hvalue] at hmatch
        rw [shown, text, hvalue, List.cons_append, replaceParameters_of_some hsep hmatch,
          replaceParameters, List.append_nil, hkind]
        rfl
  · have hno : ¬(p.separator = '?' ∨ p.separator = '&') := by
      rw [hsep]
      simp
    rw [shown_of_kind (if_pos (.inl hsep)), text, List.cons_append,
      replaceParameters_of_none fun h ↦ absurd h hno, hplain]

theorem bounded_query (query : List Parameter) : Bounded (query.flatMap text) := by
  cases query with
  | nil => exact bounded_nil
  | cons p query => exact p.bounded _

/-- The parameters of a query are replaced each by itself. -/
theorem replaceParameters_query (query : List Parameter) :
    replaceParameters rt (query.flatMap text) = query.flatMap (shown rt) := by
  induction query with
  | nil => rw [List.flatMap_nil, replaceParameters, List.flatMap_nil]
  | cons p query ih =>
    rw [List.flatMap_cons, List.flatMap_cons, replaceParameters_append (bounded_query query),
      replaceParameters_text, ih]

theorem exists_parameter {c : Char} (hc : LogRedact.separator c = true) {w : Text}
    (hw : ∀ d ∈ w, valueChar d = true) : ∃ p : Parameter, p.text = c :: w := by
  have hname : ∀ d ∈ w.takeWhile nameChar, nameChar d = true := fun d ↦ List.mem_takeWhile_imp
  have happend := @List.takeWhile_append_dropWhile _ nameChar w
  cases hdrop : w.dropWhile nameChar with
  | nil =>
    rw [hdrop] at happend
    exact ⟨⟨c, w.takeWhile nameChar, none, hc, hname, by simp⟩, congrArg (c :: ·) happend⟩
  | cons d v =>
    have hmem : ∀ a ∈ d :: v, valueChar a = true := by
      intro a ha
      rw [← hdrop] at ha
      exact hw a ((List.dropWhile_suffix nameChar).subset ha)
    have hd : d = '=' := by
      have hno : nameChar d = false := Lib.head_dropWhile (l := w) (by rw [hdrop]; rfl)
      have hvalue := hmem d List.mem_cons_self
      simp only [nameChar, valueChar, Bool.not_eq_true', Bool.not_eq_false'] at hno hvalue
      simpa [hvalue] using hno
    subst hd
    rw [hdrop] at happend
    refine ⟨⟨c, w.takeWhile nameChar, some v, hc, hname, ?_⟩, congrArg (c :: ·) happend⟩
    intro v' hv a ha
    obtain rfl := Option.some.inj hv
    exact hmem a (List.mem_cons_of_mem _ ha)

/-- Every text from a separator on is made of parameters. -/
theorem exists_query (n : ℕ) : ∀ text : Text, text.length ≤ n → Bounded text →
    ∃ query : List Parameter, query.flatMap Parameter.text = text := by
  induction n with
  | zero =>
    intro text hn _
    refine ⟨[], ?_⟩
    rw [List.length_eq_zero_iff.mp (Nat.le_zero.mp hn)]
    rfl
  | succ n ih =>
    intro text hn hbounded
    cases text with
    | nil => exact ⟨[], rfl⟩
    | cons c text =>
      rw [List.length_cons] at hn
      have hvalue := List.length_dropWhile_le valueChar text
      have hhead : Bounded (text.dropWhile valueChar) := by
        intro d hd
        simpa [valueChar] using Lib.head_dropWhile (p := valueChar) hd
      obtain ⟨query, hquery⟩ := ih _ (by omega) hhead
      obtain ⟨p, hp⟩ := exists_parameter (hbounded c rfl)
        (w := text.takeWhile valueChar) fun d ↦ List.mem_takeWhile_imp
      refine ⟨p :: query, ?_⟩
      rw [List.flatMap_cons, hp, hquery, List.cons_append, List.takeWhile_append_dropWhile]

end Parameter

end ZoneMinder.LogRedact
