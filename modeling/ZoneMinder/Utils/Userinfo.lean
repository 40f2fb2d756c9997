import ZoneMinder.Lib.Fields
import ZoneMinder.Lib.Search

namespace ZoneMinder.Utils

open Lib

/-- What ends the authority of a url. -/
def authorityEnd (c : Char) : Bool := c ∈ ['/', '?', '#']

/-- Where the authority of a url starts. The `://` is looked for in the whole url. -/
def authorityStart (url : List Char) : ℕ :=
  match findWord [':', '/', '/'] url with
  | none => 0
  | some schemeAt => schemeAt + 3

/-- Where the userinfo of a url ends: the last `@` before the path, query or fragment. -/
def userinfoEnd (url : List Char) : Option ℕ :=
  let start := authorityStart url
  let stop := (findFrom authorityEnd url start).getD url.length
  if stop = start then none
  else
    match findLast (· = '@') url (stop - 1) with
    | none => none
    | some atAt => if atAt < start then none else some atAt

/-- The result is `none` where the source throws. -/
def maskAuthentication (url : List Char) : Option (List Char) :=
  match userinfoEnd url with
  | none => some url
  | some atAt =>
    match findLast (· = ':') url atAt with
    | none => overwriteAll '*' url 0 atAt
    | some passwordAt =>
      if url[passwordAt + 1]? = some '/' then overwriteAll '*' url (passwordAt + 3) atAt
      else
        (overwriteAll '*' url (passwordAt + 1) atAt).bind fun masked ↦
          match findLast (· = '/') masked passwordAt with
          | none => overwriteAll '*' masked 0 passwordAt
          | some usernameAt => overwriteAll '*' masked (usernameAt + 1) passwordAt

/-- The url up to one position and from another one on. -/
def without (url : List Char) (upto atAt : ℕ) : Option (List Char) :=
  (slice url 0 (some upto)).bind fun before ↦
    (slice url (atAt + 1) none).map fun after ↦ before ++ after

def removeAuthentication (url : List Char) : Option (List Char) :=
  match userinfoEnd url with
  | none => some url
  | some atAt =>
    match findLast (· = ':') url atAt with
    | none => slice url (atAt + 1) none
    | some passwordAt =>
      if url[passwordAt + 1]? = some '/' then without url (passwordAt + 3) atAt
      else
        match findLast (· = '/') url passwordAt with
        | none => slice url (atAt + 1) none
        | some usernameAt => without url (usernameAt + 1) atAt

/-- A url with userinfo, in its parts. -/
structure Url where
  scheme : Option (List Char)
  userinfo : List Char
  rest : List Char
  scheme_plain : ∀ s ∈ scheme, ∀ c ∈ s, authorityEnd c = false ∧ c ≠ '@'
  userinfo_plain : ∀ c ∈ userinfo, authorityEnd c = false
  userinfo_ne_nil : userinfo ≠ []
  rest_plain : '@' ∉ rest.takeWhile (fun c ↦ !authorityEnd c)

namespace Url

variable (u : Url)

def origin : List Char :=
  match u.scheme with
  | none => []
  | some s => s ++ [':', '/', '/']

def text : List Char := u.origin ++ u.userinfo ++ '@' :: u.rest

/-- Every character but at most one `:` is a star. -/
def Starred (plain masked : List Char) : Prop :=
  masked = List.replicate plain.length '*' ∨
    ∃ name password, plain = name ++ ':' :: password ∧
      masked = List.replicate name.length '*' ++ ':' :: List.replicate password.length '*'

/-- Without its userinfo the url is what does not depend on it, and masked it shows no more than
the length of the userinfo and the place of one `:`. -/
def Hidden : Prop :=
  removeAuthentication u.text = some (u.origin ++ u.rest) ∧
    ∃ masked, maskAuthentication u.text = some (u.origin ++ masked ++ '@' :: u.rest) ∧
      Starred u.userinfo masked

theorem authorityStart_append {A R : List Char} (hA : ∀ c ∈ A, authorityEnd c = false) :
    authorityStart (A ++ '@' :: R) =
      match findWord [':', '/', '/'] R with
      | none => 0
      | some i => A.length + 1 + i + 3 := by
  have hslash : '/' ∉ A := fun h ↦ by simpa [authorityEnd] using hA '/' h
  rw [authorityStart, findWord_append hslash (by simp)]
  rw [findWord, if_neg (by simp [List.isPrefixOf])]
  cases findWord [':', '/', '/'] R with
  | none => rfl
  | some i =>
    simp only [Option.map_some]
    omega

theorem authorityStart_scheme {s rest : List Char} (hs : ∀ c ∈ s, authorityEnd c = false) :
    authorityStart (s ++ [':', '/', '/'] ++ rest) = s.length + 3 := by
  have hslash : '/' ∉ s := fun h ↦ by simpa [authorityEnd] using hs '/' h
  rw [authorityStart, List.append_assoc, findWord_append hslash (by simp),
    findWord_prefix (by simp)]
  rfl

/-- The userinfo ends at the `@` before a host without one. -/
theorem userinfoEnd_append {O A host path : List Char}
    (hstart : authorityStart (O ++ A ++ '@' :: (host ++ path)) = O.length)
    (hA : ∀ c ∈ A, authorityEnd c = false) (hhost : ∀ c ∈ host, authorityEnd c = false ∧ c ≠ '@')
    (hpath : ∀ c ∈ path.head?, authorityEnd c = true) :
    userinfoEnd (O ++ A ++ '@' :: (host ++ path)) = some (O.length + A.length) := by
  have hstop : (findFrom authorityEnd (O ++ A ++ '@' :: (host ++ path)) O.length).getD
      (O ++ A ++ '@' :: (host ++ path)).length = O.length + A.length + 1 + host.length := by
    have hplain : ∀ c ∈ A ++ '@' :: host, authorityEnd c = false := by
      intro c hc
      rcases List.mem_append.mp hc with hc | hc
      · exact hA c hc
      · rcases List.mem_cons.mp hc with rfl | hc
        · rfl
        · exact (hhost c hc).1
    cases path with
    | nil =>
      have htext : O ++ A ++ '@' :: (host ++ []) = O ++ (A ++ '@' :: host) := by simp
      rw [htext, findFrom_eq_none.mpr hplain, Option.getD_none]
      simp only [List.length_append, List.length_cons]
      omega
    | cons c path =>
      have htext : O ++ A ++ '@' :: (host ++ c :: path) = O ++ (A ++ '@' :: host) ++ c :: path := by
        simp
      rw [htext, findFrom_append hplain (hpath c rfl), Option.getD_some]
      simp only [List.length_append, List.length_cons]
      omega
  have hlast : findLast (· = '@') (O ++ A ++ '@' :: (host ++ path))
      (O.length + A.length + host.length) = some (O.length + A.length) := by
    have htext : O ++ A ++ '@' :: (host ++ path) = (O ++ A) ++ '@' :: host ++ path := by simp
    rw [htext, ← List.length_append]
    apply findLast_append (by simp)
    intro c hc
    simpa using (hhost c hc).2
  have hpos : O.length + A.length + 1 + host.length - 1 = O.length + A.length + host.length := by
    omega
  rw [userinfoEnd, hstart, hstop, if_neg (by omega), hpos, hlast]
  simp

/-- Up to where its authority reaches, a text is a host and what follows. -/
theorem exists_host {rest : List Char} (h : '@' ∉ rest.takeWhile (fun c ↦ !authorityEnd c)) :
    ∃ host path, rest = host ++ path ∧ (∀ c ∈ host, authorityEnd c = false ∧ c ≠ '@') ∧
      ∀ c ∈ path.head?, authorityEnd c = true := by
  refine ⟨rest.takeWhile (fun c ↦ !authorityEnd c), rest.dropWhile (fun c ↦ !authorityEnd c),
    List.takeWhile_append_dropWhile.symm, ?_, ?_⟩
  · intro c hc
    refine ⟨by simpa using List.mem_takeWhile_imp hc, ?_⟩
    rintro rfl
    exact h hc
  · intro c hc
    simpa using head_dropWhile hc

variable {u}

/-- The part of the url up to the userinfo, as a position. -/
theorem userinfoEnd_text (h : authorityStart u.text = u.origin.length) :
    userinfoEnd u.text = some (u.origin.length + u.userinfo.length) := by
  obtain ⟨host, path, hrest, hhost, hpath⟩ := exists_host u.rest_plain
  rw [text, hrest] at h ⊢
  exact userinfoEnd_append h u.userinfo_plain hhost hpath

theorem origin_cases (u : Url) :
    (u.scheme = none ∧ u.origin = []) ∨
      ∃ s, u.scheme = some s ∧ u.origin = s ++ [':', '/', '/'] ∧ '/' ∉ s := by
  unfold origin
  cases hs : u.scheme with
  | none => exact .inl ⟨rfl, rfl⟩
  | some s =>
    refine .inr ⟨s, rfl, rfl, ?_⟩
    intro h
    simpa [authorityEnd] using (u.scheme_plain s hs '/' h).1

theorem slash_notMem (u : Url) : '/' ∉ u.userinfo := fun h ↦ by
  simpa [authorityEnd] using u.userinfo_plain '/' h

theorem slice_rest (u : Url) :
    slice u.text (u.origin.length + u.userinfo.length + 1) none = some u.rest := by
  have htext : u.text = (u.origin ++ u.userinfo ++ ['@']) ++ u.rest := by simp [text]
  have hlen : u.origin.length + u.userinfo.length + 1 =
      (u.origin ++ u.userinfo ++ ['@']).length := by simp [Nat.add_assoc]
  rw [htext, hlen, slice_none_append]

theorem without_origin (u : Url) :
    without u.text u.origin.length (u.origin.length + u.userinfo.length) =
      some (u.origin ++ u.rest) := by
  have hbefore : slice u.text 0 (some u.origin.length) = some u.origin := by
    simp [slice, text, List.append_assoc]
  rw [without, hbefore, slice_rest]
  rfl

/-- The `/` before a name that has none is the last one of the origin. -/
theorem findLast_slash (u : Url) {name : List Char} (hname : '/' ∉ name) (after : List Char) :
    findLast (· = '/') (u.origin ++ name ++ ':' :: after) (u.origin.length + name.length) =
      if u.origin = [] then none else some (u.origin.length - 1) := by
  have hplain : ∀ c ∈ name ++ [':'], decide (c = '/') = false := by
    intro c hc
    rcases List.mem_append.mp hc with hc | hc
    · simpa using fun h : c = '/' ↦ hname (h ▸ hc)
    · simp [List.mem_singleton.mp hc]
  rcases u.origin_cases with ⟨-, ho⟩ | ⟨s, -, ho, -⟩
  · rw [if_pos ho, ho, findLast_eq_none]
    intro c hc
    refine hplain c ?_
    simpa [List.take_append, List.take_of_length_le (Nat.le_succ _)] using hc
  · have htext : u.origin ++ name ++ ':' :: after =
        (s ++ [':', '/']) ++ '/' :: (name ++ [':']) ++ after := by simp [ho]
    have hpos : u.origin.length + name.length =
        (s ++ [':', '/']).length + (name ++ [':']).length := by
      simp [ho]
      omega
    rw [if_neg (by simp [ho]), htext, hpos, findLast_append (by simp) hplain]
    simp [ho]

/-- A last `:` in the userinfo is the one before the password. -/
theorem hidden_of_password {name password : List Char} (h : authorityStart u.text = u.origin.length)
    (hinfo : u.userinfo = name ++ ':' :: password) (hlast : ':' ∉ password) : u.Hidden := by
  have hend := userinfoEnd_text h
  have hlen : u.userinfo.length = name.length + (password.length + 1) := by simp [hinfo]
  have hname : '/' ∉ name := fun h ↦ u.slash_notMem (by simp [hinfo, h])
  have hpassword : '/' ∉ password := fun h ↦ u.slash_notMem (by simp [hinfo, h])
  have htext : u.text = u.origin ++ name ++ ':' :: (password ++ '@' :: u.rest) := by
    simp [text, hinfo]
  have hcolon : findLast (· = ':') u.text (u.origin.length + u.userinfo.length) =
      some (u.origin.length + name.length) := by
    have htext : u.text = (u.origin ++ name) ++ ':' :: (password ++ ['@']) ++ u.rest := by
      simp [text, hinfo]
    have hpos : u.origin.length + u.userinfo.length =
        (u.origin ++ name).length + (password ++ ['@']).length := by
      simp only [List.length_append, List.length_singleton, hlen]
      omega
    rw [htext, hpos, findLast_append (by simp), List.length_append]
    intro c hc
    rcases List.mem_append.mp hc with hc | hc
    · simpa using fun h : c = ':' ↦ hlast (h ▸ hc)
    · simp [List.mem_singleton.mp hc]
  have hnext : u.text[u.origin.length + name.length + 1]? ≠ some '/' := by
    have hget : u.text[u.origin.length + name.length + 1]? =
        (password ++ '@' :: u.rest)[0]? := by
      rw [htext, List.getElem?_append_right (by simp)]
      simp [List.length_append]
    rw [hget]
    cases password with
    | nil => simp
    | cons c password => simpa using fun h : c = '/' ↦ hpassword (h ▸ List.mem_cons_self)
  constructor
  · rw [removeAuthentication, hend]
    simp only [hcolon]
    rw [if_neg hnext, htext, findLast_slash u hname, ← htext]
    by_cases ho : u.origin = []
    · rw [if_pos ho]
      simp only [slice_rest]
      rw [ho, List.nil_append]
    · have hpos : u.origin.length - 1 + 1 = u.origin.length := by
        have hlt := List.length_pos_iff.mpr ho
        omega
      rw [if_neg ho]
      simp only [hpos, without_origin]
  · refine ⟨List.replicate name.length '*' ++ ':' :: List.replicate password.length '*', ?_,
      .inr ⟨name, password, hinfo, rfl⟩⟩
    have hfirst : overwriteAll '*' u.text (u.origin.length + name.length + 1)
        (u.origin.length + u.userinfo.length) =
          some (u.origin ++ name ++ ':' :: (List.replicate password.length '*' ++ '@' :: u.rest)) := by
      have htext' : u.text = (u.origin ++ name ++ [':']) ++ password ++ '@' :: u.rest := by
        simp [htext]
      have hpos : u.origin.length + name.length + 1 = (u.origin ++ name ++ [':']).length := by
        simp [Nat.add_assoc]
      have hstop : u.origin.length + u.userinfo.length =
          (u.origin ++ name ++ [':']).length + password.length := by
        simp [hlen]
        omega
      rw [htext', hpos, hstop, overwriteAll_append]
      simp
    have hsecond : overwriteAll '*'
        (u.origin ++ name ++ ':' :: (List.replicate password.length '*' ++ '@' :: u.rest))
        u.origin.length (u.origin.length + name.length) =
          some (u.origin ++ (List.replicate name.length '*' ++
            ':' :: List.replicate password.length '*') ++ '@' :: u.rest) := by
      rw [overwriteAll_append]
      simp
    rw [maskAuthentication, hend]
    simp only [hcolon]
    rw [if_neg hnext, hfirst, Option.bind_some, findLast_slash u hname]
    by_cases ho : u.origin = []
    · rw [if_pos ho]
      rw [ho, List.length_nil] at hsecond ⊢
      exact hsecond
    · have hpos : u.origin.length - 1 + 1 = u.origin.length := by
        have hlt := List.length_pos_iff.mpr ho
        omega
      rw [if_neg ho]
      simp only [hpos]
      exact hsecond

/-- Without a `:` in the userinfo the last one, if any, is the one of the scheme. -/
theorem hidden_of_name (h : authorityStart u.text = u.origin.length) (hinfo : ':' ∉ u.userinfo) :
    u.Hidden := by
  have hend := userinfoEnd_text h
  have hmask : overwriteAll '*' u.text u.origin.length (u.origin.length + u.userinfo.length) =
      some (u.origin ++ List.replicate u.userinfo.length '*' ++ '@' :: u.rest) := by
    rw [text, overwriteAll_append]
  have hplain : ∀ c ∈ u.userinfo ++ ['@'], decide (c = ':') = false := by
    intro c hc
    rcases List.mem_append.mp hc with hc | hc
    · simpa using fun h : c = ':' ↦ hinfo (h ▸ hc)
    · simp [List.mem_singleton.mp hc]
  rcases u.origin_cases with ⟨-, ho⟩ | ⟨s, -, ho, -⟩
  · have hcolon : findLast (· = ':') u.text (u.origin.length + u.userinfo.length) = none := by
      rw [findLast_eq_none]
      intro c hc
      refine hplain c ?_
      simpa [text, ho, List.take_append, List.take_of_length_le (Nat.le_succ _)] using hc
    refine ⟨?_, _, ?_, .inl rfl⟩
    · rw [removeAuthentication, hend]
      simp only [hcolon, slice_rest]
      rw [ho, List.nil_append]
    · rw [maskAuthentication, hend]
      simp only [hcolon]
      rw [← hmask, ho]
      rfl
  · have hcolon : findLast (· = ':') u.text (u.origin.length + u.userinfo.length) =
        some s.length := by
      have htext : u.text = s ++ ':' :: (['/', '/'] ++ (u.userinfo ++ ['@'])) ++ u.rest := by
        simp [text, ho]
      have hpos : u.origin.length + u.userinfo.length =
          s.length + (['/', '/'] ++ (u.userinfo ++ ['@'])).length := by
        simp [ho]
        omega
      rw [htext, hpos, findLast_append (by simp)]
      intro c hc
      rcases List.mem_append.mp hc with hc | hc
      · simp only [List.mem_cons, List.not_mem_nil, or_false, or_self] at hc
        simp [hc]
      · exact hplain c hc
    have hnext : u.text[s.length + 1]? = some '/' := by
      simp [text, ho]
    have hlen : s.length + 3 = u.origin.length := by simp [ho]
    refine ⟨?_, _, ?_, .inl rfl⟩
    · rw [removeAuthentication, hend]
      simp only [hcolon]
      rw [if_pos hnext, hlen, without_origin]
    · rw [maskAuthentication, hend]
      simp only [hcolon]
      rw [if_pos hnext, hlen, hmask]

theorem exists_last_colon {A : List Char} (h : ':' ∈ A) :
    ∃ name password, A = name ++ ':' :: password ∧ ':' ∉ password := by
  obtain ⟨name, c, password, rfl, hc, hlast⟩ :=
    exists_last_not (p := fun c ↦ c != ':') (l := A) (by
      intro hall
      simpa using hall ':' h)
  obtain rfl : c = ':' := by simpa using hc
  exact ⟨name, password, rfl, fun h ↦ by simpa using hlast ':' h⟩

theorem hidden_of_start (h : authorityStart u.text = u.origin.length) : u.Hidden := by
  by_cases hinfo : ':' ∈ u.userinfo
  · obtain ⟨name, password, hinfo, hlast⟩ := exists_last_colon hinfo
    exact hidden_of_password h hinfo hlast
  · exact hidden_of_name h hinfo

theorem le_of_userinfoEnd {url : List Char} {atAt : ℕ} (h : userinfoEnd url = some atAt) :
    authorityStart url ≤ atAt := by
  unfold userinfoEnd at h
  simp only at h
  split_ifs at h
  split at h
  next => cases h
  next =>
    split_ifs at h with hlt
    exact Option.some.inj h ▸ Nat.le_of_not_lt hlt

theorem prefix_without {url before r : List Char} {upto atAt : ℕ} (h : before <+: url)
    (hupto : before.length ≤ upto) (hr : without url upto atAt = some r) : before <+: r := by
  obtain ⟨first, hfirst, hr⟩ := Option.bind_eq_some_iff.mp hr
  obtain ⟨after, -, rfl⟩ := Option.map_eq_some_iff.mp hr
  have htake : first = url.take upto := by
    rw [slice, if_pos (Nat.zero_le _)] at hfirst
    exact (Option.some.inj hfirst).symm
  rw [htake]
  exact (List.prefix_take_iff.mpr ⟨h, hupto⟩).trans (List.prefix_append _ _)

/-- A `://` in the rest of a url without a scheme is taken for the one of the scheme, and what
stands before it is kept. -/
theorem prefix_removeAuthentication {r : List Char} (hscheme : u.scheme = none)
    (h : [':', '/', '/'] <:+: u.rest) (hr : removeAuthentication u.text = some r) :
    u.userinfo ++ ['@'] <+: r := by
  have ho : u.origin = [] := by rw [origin, hscheme]
  have htext : u.text = u.userinfo ++ '@' :: u.rest := by rw [text, ho, List.nil_append]
  have hpre : u.userinfo ++ ['@'] <+: u.text := ⟨u.rest, by simp [htext]⟩
  obtain ⟨i, hi⟩ := Option.ne_none_iff_exists'.mp fun hnone ↦ (findWord_eq_none _ _).mp hnone h
  obtain ⟨first, second, hrest, hlen⟩ := exists_of_findWord hi
  have hstart : authorityStart u.text = u.userinfo.length + 1 + i + 3 := by
    rw [htext, authorityStart_append u.userinfo_plain, hi]
  have hword : ∀ k c, [':', '/', '/'][k]? = some c →
      u.text[u.userinfo.length + 1 + i + k]? = some c := by
    intro k c hk
    have hsplit : u.text = (u.userinfo ++ '@' :: first) ++ ([':', '/', '/'] ++ second) := by
      simp [htext, hrest]
    have hpos : u.userinfo.length + 1 + i + k = (u.userinfo ++ '@' :: first).length + k := by
      simp [hlen]
      omega
    rw [hsplit, hpos, List.getElem?_append_right (Nat.le_add_right _ _), Nat.add_sub_cancel_left,
      List.getElem?_append_left (List.getElem?_eq_some_iff.mp hk).1, hk]
  rw [removeAuthentication] at hr
  cases hend : userinfoEnd u.text with
  | none =>
    rw [hend] at hr
    obtain rfl := Option.some.inj hr
    exact hpre
  | some atAt =>
    have hle : u.userinfo.length + 1 + i + 3 ≤ atAt := hstart ▸ le_of_userinfoEnd hend
    obtain ⟨passwordAt, c, hcolon, hpassword, hget, hc⟩ := exists_findLast (p := (· = ':'))
      (hword 0 ':' rfl) (by simp) (show u.userinfo.length + 1 + i + 0 ≤ atAt by omega)
    obtain rfl : c = ':' := by simpa using hc
    rw [hend] at hr
    simp only [hcolon] at hr
    split_ifs at hr with hnext
    · exact prefix_without hpre (by simp; omega) hr
    · have hlater : u.userinfo.length + 1 + i + 2 ≤ passwordAt := by
        by_contra hlt
        have hslash := hword 1 '/' rfl
        rcases (show passwordAt = u.userinfo.length + 1 + i + 0 ∨
          passwordAt = u.userinfo.length + 1 + i + 1 by omega) with rfl | rfl
        · exact hnext hslash
        · rw [hslash] at hget
          exact absurd (Option.some.inj hget) (by decide)
      obtain ⟨usernameAt, d, hslash, husername, -, -⟩ := exists_findLast (p := (· = '/'))
        (hword 2 '/' rfl) (by simp) hlater
      simp only [hslash] at hr
      exact prefix_without hpre (by simp; omega) hr

theorem not_hidden (hscheme : u.scheme = none) (h : [':', '/', '/'] <:+: u.rest) : ¬u.Hidden := by
  rintro ⟨hremove, -⟩
  have ho : u.origin = [] := by rw [origin, hscheme]
  obtain ⟨after, hafter⟩ := prefix_removeAuthentication hscheme h hremove
  rw [ho, List.nil_append] at hafter
  have hplain : ∀ c ∈ u.userinfo ++ ['@'], (!authorityEnd c) = true := by
    intro c hc
    rcases List.mem_append.mp hc with hc | hc
    · simpa using u.userinfo_plain c hc
    · simp [List.mem_singleton.mp hc, authorityEnd]
  refine u.rest_plain ?_
  rw [← hafter, List.takeWhile_append_of_pos hplain]
  simp

theorem hidden_iff (u : Url) :
    u.Hidden ↔ u.scheme.isSome ∨ ¬[':', '/', '/'] <:+: u.rest := by
  constructor
  · intro h
    by_contra hnot
    simp only [not_or, not_not, Bool.not_eq_true, Option.isSome_eq_false_iff,
      Option.isNone_iff_eq_none] at hnot
    exact not_hidden hnot.1 hnot.2 h
  · intro h
    apply hidden_of_start
    rcases u.origin_cases with ⟨hnone, ho⟩ | ⟨s, hs, ho, -⟩
    · have hrest : ¬[':', '/', '/'] <:+: u.rest := by simpa [hnone] using h
      rw [text, ho, List.nil_append, authorityStart_append u.userinfo_plain,
        (findWord_eq_none _ _).mpr hrest]
      rfl
    · have hplain : ∀ c ∈ s, authorityEnd c = false := fun c hc ↦ (u.scheme_plain s hs c hc).1
      rw [text, ho, List.append_assoc, authorityStart_scheme hplain]
      simp

/-- Where the authority holds no `@`, no userinfo ends. -/
theorem userinfoEnd_eq_none {s rest : List Char} (hs : ∀ c ∈ s, authorityEnd c = false)
    (hrest : '@' ∉ rest.takeWhile (fun c ↦ !authorityEnd c)) :
    userinfoEnd (s ++ [':', '/', '/'] ++ rest) = none := by
  obtain ⟨host, path, rfl, hhost, hpath⟩ := exists_host hrest
  have hplain : ∀ c ∈ host, authorityEnd c = false := fun c hc ↦ (hhost c hc).1
  have hlength : (s ++ [':', '/', '/']).length = s.length + 3 := by simp
  have hstop : (findFrom authorityEnd (s ++ [':', '/', '/'] ++ (host ++ path)) (s.length + 3)).getD
      (s ++ [':', '/', '/'] ++ (host ++ path)).length = s.length + 3 + host.length := by
    rw [← hlength]
    cases path with
    | nil =>
      rw [List.append_nil, findFrom_eq_none.mpr hplain, Option.getD_none, List.length_append]
    | cons c path =>
      rw [← List.append_assoc, findFrom_append hplain (hpath c rfl), Option.getD_some]
  rw [userinfoEnd, authorityStart_scheme hs, hstop]
  split_ifs with hempty
  · rfl
  · cases hlast : findLast (· = '@') (s ++ [':', '/', '/'] ++ (host ++ path))
        (s.length + 3 + host.length - 1) with
    | none => rfl
    | some atAt =>
      obtain ⟨hle, c, hget, hc⟩ := of_findLast hlast
      obtain rfl : c = '@' := by simpa using hc
      refine if_pos (not_le.mp fun hge ↦ ?_)
      rw [List.getElem?_append_right (by omega), hlength, List.getElem?_append_left (by omega)]
        at hget
      exact (hhost '@' (List.mem_of_getElem? hget)).2 rfl

/-- An absolute url with some userinfo, or with none. -/
def absolute (s : List Char) (userinfo : Option (List Char)) (rest : List Char) : List Char :=
  s ++ [':', '/', '/'] ++ ((userinfo.map (· ++ ['@'])).getD [] ++ rest)

theorem removeAuthentication_absolute {s rest : List Char} {userinfo : Option (List Char)}
    (hs : ∀ c ∈ s, authorityEnd c = false ∧ c ≠ '@')
    (hinfo : ∀ A ∈ userinfo, ∀ c ∈ A, authorityEnd c = false)
    (hrest : '@' ∉ rest.takeWhile (fun c ↦ !authorityEnd c)) :
    removeAuthentication (absolute s userinfo rest) = some (s ++ [':', '/', '/'] ++ rest) := by
  have hplain : ∀ c ∈ s, authorityEnd c = false := fun c hc ↦ (hs c hc).1
  match userinfo with
  | none =>
    rw [removeAuthentication, absolute]
    simp only [Option.map_none, Option.getD_none, List.nil_append, userinfoEnd_eq_none hplain hrest]
  | some [] =>
    -- the last `:` is the one of the scheme, and a `/` follows it
    have hstart : authorityStart (s ++ [':', '/', '/'] ++ '@' :: rest) = s.length + 3 :=
      authorityStart_scheme hplain
    have hlength : s.length + 3 = (s ++ [':', '/', '/']).length := by simp
    have htext : absolute s (some []) rest = s ++ [':', '/', '/'] ++ '@' :: rest := by
      simp [absolute]
    have hend : userinfoEnd (s ++ [':', '/', '/'] ++ '@' :: rest) = some (s.length + 3) := by
      obtain ⟨host, path, rfl, hhost, hpath⟩ := exists_host hrest
      have hend := @userinfoEnd_append (s ++ [':', '/', '/']) [] host path
        (by rw [List.append_nil, hstart, hlength]) (by simp) hhost hpath
      rwa [List.append_nil, List.length_nil, Nat.add_zero, ← hlength] at hend
    have hcolon : findLast (· = ':') (s ++ [':', '/', '/'] ++ '@' :: rest) (s.length + 3) =
        some s.length := by
      have hsplit : s ++ [':', '/', '/'] ++ '@' :: rest = s ++ ':' :: ['/', '/', '@'] ++ rest := by
        simp
      rw [hsplit]
      exact findLast_append (v := ['/', '/', '@']) rfl (by simp)
    have hnext : (s ++ [':', '/', '/'] ++ '@' :: rest)[s.length + 1]? = some '/' := by simp
    have hbefore : slice (s ++ [':', '/', '/'] ++ '@' :: rest) 0 (some (s.length + 3)) =
        some (s ++ [':', '/', '/']) := by
      rw [hlength, slice, if_pos (Nat.zero_le _), List.drop_zero, Nat.sub_zero, List.take_left]
    have hafter : slice (s ++ [':', '/', '/'] ++ '@' :: rest) (s.length + 3 + 1) none =
        some rest := by
      have hsplit : s ++ [':', '/', '/'] ++ '@' :: rest = (s ++ [':', '/', '/'] ++ ['@']) ++ rest := by
        simp
      have hpos : s.length + 3 + 1 = (s ++ [':', '/', '/'] ++ ['@']).length := by simp
      rw [hsplit, hpos, slice_none_append]
    rw [htext, removeAuthentication, hend]
    simp only [hcolon]
    rw [if_pos hnext, without, hbefore, hafter]
    rfl
  | some (a :: A) =>
    let u : Url := ⟨some s, a :: A, rest, by simpa using hs, hinfo _ rfl, List.cons_ne_nil a A, hrest⟩
    have htext : absolute s (some (a :: A)) rest = u.text := by simp [absolute, text, origin, u]
    rw [htext, (hidden_iff u).mpr (.inl rfl) |>.1]
    rfl

theorem removeAuthentication_isSome (url : List Char) : (removeAuthentication url).isSome := by
  rw [removeAuthentication]
  cases hend : userinfoEnd url with
  | none => rfl
  | some atAt =>
    have hlt : atAt + 1 ≤ url.length := by
      rw [userinfoEnd] at hend
      split_ifs at hend
      cases hlast : findLast (· = '@') url
          ((findFrom authorityEnd url (authorityStart url)).getD url.length - 1) with
      | none =>
        rw [hlast] at hend
        cases hend
      | some i =>
        rw [hlast] at hend
        obtain ⟨-, heq⟩ := Option.ite_none_left_eq_some.mp hend
        obtain ⟨-, c, hget, -⟩ := of_findLast hlast
        rw [← Option.some.inj heq]
        exact (List.getElem?_eq_some_iff.mp hget).1
    have hafter : slice url (atAt + 1) none = some (url.drop (atAt + 1)) := if_pos hlt
    have hwithout (upto : ℕ) : without url upto atAt =
        some ((url.drop 0).take (upto - 0) ++ url.drop (atAt + 1)) := by
      rw [without, hafter, slice, if_pos (Nat.zero_le _)]
      rfl
    simp only [hafter, hwithout]
    split
    · rfl
    · split_ifs
      · rfl
      · split <;> rfl

/-- A camera's url without a scheme, with another url in its query. -/
def queried : Url where
  scheme := none
  userinfo := "user:secret".toList
  rest := "host/?u=rtsp://x".toList
  scheme_plain := by simp
  userinfo_plain := by simp [authorityEnd]
  userinfo_ne_nil := by simp
  rest_plain := by simp [authorityEnd, List.takeWhile]

theorem not_hidden_queried : ¬queried.Hidden := by
  rintro ⟨hremove, -⟩
  have hleak : removeAuthentication queried.text = some queried.text := by decide
  rw [hleak] at hremove
  exact absurd hremove (by decide)

end Url

end ZoneMinder.Utils
