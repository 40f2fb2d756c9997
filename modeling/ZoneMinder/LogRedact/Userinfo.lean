import ZoneMinder.LogRedact.Redact

namespace ZoneMinder.LogRedact

open Php

variable {rt : Runtime} {text rest scheme userinfo : Text}

def authority (text : Text) : Text := text.takeWhile (fun c ↦ !authorityEnd c)

theorem afterAt_eq_none : afterAt (fun _ ↦ true) text = none ↔ '@' ∉ authority text := by
  induction text with
  | nil => simp [afterAt, authority]
  | cons c text ih =>
    rw [afterAt]
    by_cases hc : authorityEnd c = true
    · simp [authority, hc]
    · rw [authority, List.takeWhile_cons_of_pos (by simpa using hc), List.mem_cons, not_or,
        if_neg hc, ← authority, ← ih]
      cases afterAt (fun _ ↦ true) text with
      | none => simp [eq_comm]
      | some rest => simp

/-- The userinfo reaches up to the last `@`. -/
theorem afterAt_append (hinfo : ∀ c ∈ userinfo, authorityEnd c = false) (rest : Text) :
    afterAt (fun _ ↦ true) (userinfo ++ '@' :: rest) =
      some ((afterAt (fun _ ↦ true) rest).getD rest) := by
  induction userinfo with
  | nil =>
    rw [List.nil_append, afterAt, if_neg (by decide)]
    cases afterAt (fun _ ↦ true) rest <;> rfl
  | cons c userinfo ih =>
    have hc := hinfo c List.mem_cons_self
    rw [List.cons_append, afterAt, hc, ih fun d hd ↦ hinfo d (List.mem_cons_of_mem c hd)]
    rfl

theorem exists_of_afterAt (h : afterAt (fun _ ↦ true) text = some rest) :
    ∃ userinfo, text = userinfo ++ '@' :: rest ∧ (∀ c ∈ userinfo, authorityEnd c = false) ∧
      '@' ∉ authority rest := by
  induction text with
  | nil => cases h
  | cons c text ih =>
    rw [afterAt] at h
    obtain ⟨hc, h⟩ := Option.ite_none_left_eq_some.mp h
    cases hafter : afterAt (fun _ ↦ true) text with
    | some after =>
      rw [hafter] at h
      obtain ⟨userinfo, rfl, hplain, hrest⟩ := ih (hafter.trans h)
      refine ⟨c :: userinfo, rfl, ?_, hrest⟩
      intro d hd
      rcases List.mem_cons.mp hd with rfl | hd
      · simpa using hc
      · exact hplain d hd
    | none =>
      rw [hafter] at h
      obtain ⟨⟨rfl, -⟩, hrest⟩ := Option.ite_none_right_eq_some.mp h
      obtain rfl := Option.some.inj hrest
      exact ⟨[], rfl, by simp, afterAt_eq_none.mp hafter⟩

theorem ne_of_schemeChar {c d : Char} (hc : schemeChar c = true) (hd : schemeChar d = false) :
    c ≠ d := by
  rintro rfl
  rw [hc] at hd
  cases hd

theorem takeWhile_scheme {p : Char → Bool} (hplain : ∀ c ∈ scheme, p c = true)
    (hcolon : ¬p ':' = true) (rest : Text) :
    (scheme ++ ':' :: rest).takeWhile p = scheme ∧
      (scheme ++ ':' :: rest).dropWhile p = ':' :: rest := by
  rw [Lib.takeWhile_append_stop hcolon, Lib.dropWhile_append_stop hcolon,
    List.takeWhile_eq_self_iff.mpr hplain, List.dropWhile_eq_nil_iff.mpr hplain]
  exact ⟨rfl, rfl⟩

theorem removeUrlUserinfo_scheme (hhead : scheme.head?.any Char.isAlpha = true)
    (hplain : ∀ c ∈ scheme, schemeChar c = true) (rest : Text) :
    removeUrlUserinfo (scheme ++ ':' :: '/' :: '/' :: rest) =
      scheme ++ ':' :: '/' :: '/' :: (afterAt (fun _ ↦ true) rest).getD rest := by
  have hcolon : ¬schemeChar ':' = true := by decide
  obtain ⟨htake, hdrop⟩ := takeWhile_scheme hplain hcolon ('/' :: '/' :: rest)
  rw [removeUrlUserinfo, htake, hdrop]
  cases scheme with
  | nil => cases hhead
  | cons c scheme =>
    have halpha : c.isAlpha = true := hhead
    have hend : "://".toList = [':', '/', '/'] := rfl
    simp [halpha, hend]

/-- A URL with a userinfo, whatever comes after it. -/
def userinfoUrl (scheme userinfo rest : Text) : Text :=
  scheme ++ "://".toList ++ userinfo ++ '@' :: rest

theorem userinfoUrl_eq (scheme userinfo rest : Text) :
    userinfoUrl scheme userinfo rest =
      scheme ++ ':' :: '/' :: '/' :: (userinfo ++ '@' :: rest) := by
  have hend : "://".toList = [':', '/', '/'] := rfl
  simp [userinfoUrl, hend]

section Differ

variable {userinfo' : Text} (hhead : scheme.head?.any Char.isAlpha = true)
  (hplain : ∀ c ∈ scheme, schemeChar c = true) (hinfo : ∀ c ∈ userinfo, authorityEnd c = false)
  (hinfo' : ∀ c ∈ userinfo', authorityEnd c = false)
include hhead hplain hinfo hinfo'

theorem removeUserinfo_differ (rest : Text) : removeUserinfo (userinfoUrl scheme userinfo rest) =
    removeUserinfo (userinfoUrl scheme userinfo' rest) := by
  rw [removeUserinfo, removeUserinfo, userinfoUrl_eq, userinfoUrl_eq,
    removeUrlUserinfo_scheme hhead hplain, removeUrlUserinfo_scheme hhead hplain,
    afterAt_append hinfo, afterAt_append hinfo']
  rfl

omit hhead hinfo' in
theorem urlForLog_userinfoUrl (rest : Text) :
    urlForLog rt (userinfoUrl scheme userinfo rest) =
      removeUserinfo (userinfoUrl scheme userinfo (rest.takeWhile (· ≠ '?'))) ++
        if '?' ∈ rest then redactQueryString rt (rest.dropWhile (· ≠ '?')) else [] := by
  have hend : "://".toList = [':', '/', '/'] := rfl
  have hscheme : '?' ∉ scheme := fun hc ↦ by cases hplain _ hc
  have huserinfo : '?' ∉ userinfo := fun hc ↦ by cases hinfo _ hc
  have hbefore : ∀ c ∈ scheme ++ "://".toList ++ userinfo ++ ['@'], decide (c ≠ '?') = true := by
    intro c hc
    rw [decide_eq_true_iff]
    rintro rfl
    simp [hend, hscheme, huserinfo] at hc
  have hurl : ∀ rest, userinfoUrl scheme userinfo rest =
      (scheme ++ "://".toList ++ userinfo ++ ['@']) ++ rest := by
    intro rest
    simp [userinfoUrl]
  have hmem : '?' ∈ userinfoUrl scheme userinfo rest ↔ '?' ∈ rest := by
    simp [userinfoUrl, hend, hscheme, huserinfo]
  simp only [urlForLog, hmem]
  rw [hurl, hurl, List.takeWhile_append_of_pos hbefore, List.dropWhile_append_of_pos hbefore]

theorem urlForLog_differ (rest : Text) : urlForLog rt (userinfoUrl scheme userinfo rest) =
    urlForLog rt (userinfoUrl scheme userinfo' rest) := by
  rw [urlForLog_userinfoUrl hplain hinfo, urlForLog_userinfoUrl hplain hinfo',
    removeUserinfo_differ hhead hplain hinfo hinfo']

theorem redactForLog_differ (rest : Text) {key : Option Key} (hkey : keyKind key ≠ some .token) :
    redactForLog rt (.scalar (.string (userinfoUrl scheme userinfo rest))) key =
      redactForLog rt (.scalar (.string (userinfoUrl scheme userinfo' rest))) key := by
  have hremove := removeUserinfo_differ hhead hplain hinfo hinfo' rest
  cases hkind : keyKind key with
  | none => simp only [redactForLog, redactScalar, hkind, hremove]
  | some kind =>
    cases kind with
    | secret => simp only [redactForLog, redactScalar, hkind]
    | token => exact absurd hkind hkey

end Differ

/-- The scheme is no user with a password after it. -/
theorem removeHostUserinfo_scheme (hplain : ∀ c ∈ scheme, schemeChar c = true) (rest : Text) :
    removeHostUserinfo (scheme ++ ':' :: '/' :: rest) = scheme ++ ':' :: '/' :: rest := by
  have huser : ∀ c ∈ scheme, userChar c = true := by
    intro c hc
    have hne : ∀ d, schemeChar d = false → c ≠ d := fun d hd ↦ ne_of_schemeChar (hplain c hc) hd
    simp [userChar, space, hne '/' rfl, hne ':' rfl, hne '@' rfl, hne ' ' rfl, hne '\t' rfl,
      hne '\n' rfl, hne '\x0b' rfl, hne '\x0c' rfl, hne '\r' rfl]
  have hcolon : ¬userChar ':' = true := by decide
  obtain ⟨htake, hdrop⟩ := takeWhile_scheme huser hcolon ('/' :: rest)
  rw [removeHostUserinfo, htake, hdrop]
  cases scheme <;> rfl

end ZoneMinder.LogRedact
