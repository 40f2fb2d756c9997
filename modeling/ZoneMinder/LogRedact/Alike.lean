import ZoneMinder.LogRedact.Parameters
import ZoneMinder.LogRedact.Userinfo

namespace ZoneMinder.LogRedact

open Php

variable {rt : Runtime}

/-- A URL by its parts; what is before the first question mark is kept apart from the query. -/
structure Url where
  scheme : Text
  userinfo : Option Text
  location : Text
  query : List Parameter
  scheme_head : scheme.head?.any Char.isAlpha = true
  scheme_plain : ∀ c ∈ scheme, schemeChar c = true
  userinfo_plain : ∀ u ∈ userinfo, ∀ c ∈ u, authorityEnd c = false
  authority_plain : '@' ∉ authority location
  location_plain : '?' ∉ location
  query_head : ∀ p ∈ query.head?, p.separator = '?'

namespace Url

/-- The URL up to its query, without the userinfo. -/
def base (u : Url) : Text := u.scheme ++ "://".toList ++ u.location

def text (u : Url) : Text :=
  u.scheme ++ "://".toList ++ (u.userinfo.map (· ++ ['@'])).getD [] ++ u.location ++
    u.query.flatMap Parameter.text

/-- The URL as a log shows it. -/
def shown (rt : Runtime) (u : Url) : Text := u.base ++ u.query.flatMap (Parameter.shown rt)

/-- The two differ in the userinfo and in the values of secret parameters at most. -/
structure Alike (u v : Url) : Prop where
  scheme : u.scheme = v.scheme
  location : u.location = v.location
  query : List.Forall₂ Parameter.Alike u.query v.query

theorem base_eq {u v : Url} (h : u.Alike v) : u.base = v.base := by
  rw [base, base, h.scheme, h.location]

theorem shown_query_eq {query query' : List Parameter}
    (h : List.Forall₂ Parameter.Alike query query') :
    query.flatMap (Parameter.shown rt) = query'.flatMap (Parameter.shown rt) := by
  induction h with
  | nil => rfl
  | cons hp _ ih => rw [List.flatMap_cons, List.flatMap_cons, Parameter.shown_eq hp, ih]

theorem shown_eq {u v : Url} (h : u.Alike v) : u.shown rt = v.shown rt := by
  rw [shown, shown, base_eq h, shown_query_eq h.query]

variable (u : Url)

theorem query_text_head : ∀ c ∈ (u.query.flatMap Parameter.text).head?, c = '?' := by
  have h := u.query_head
  cases hquery : u.query with
  | nil =>
    intro c hc
    cases hc
  | cons p query =>
    rw [hquery] at h
    intro c hc
    obtain rfl := Option.some.inj hc
    exact h p rfl

theorem authority_append {rest : Text} (hrest : ∀ c ∈ rest.head?, c = '?') :
    '@' ∉ authority (u.location ++ rest) := by
  have hstop : ∀ c ∈ rest.head?, (!authorityEnd c) = false := by
    intro c hc
    rw [hrest c hc]
    rfl
  rw [authority, Lib.takeWhile_append_head hstop]
  exact u.authority_plain

/-- Every URL is one by its parts. -/
theorem exists_text {scheme : Text} (hhead : scheme.head?.any Char.isAlpha = true)
    (hplain : ∀ c ∈ scheme, schemeChar c = true) (rest : Text) :
    ∃ u : Url, u.scheme = scheme ∧ u.text = scheme ++ ':' :: '/' :: '/' :: rest := by
  have hquery : ∀ c ∈ (rest.dropWhile (· ≠ '?')).head?, c = '?' := by
    intro c hc
    simpa using Lib.head_dropWhile hc
  have hbounded : Bounded (rest.dropWhile (· ≠ '?')) := by
    intro c hc
    rw [hquery c hc]
    rfl
  obtain ⟨query, htext⟩ := Parameter.exists_query _ _ le_rfl hbounded
  have hhead' : ∀ p ∈ query.head?, p.separator = '?' := by
    intro p hp
    apply hquery
    rw [← htext]
    cases query with
    | nil => cases hp
    | cons q query =>
      obtain rfl := Option.some.inj hp
      rfl
  have hend : "://".toList = [':', '/', '/'] := rfl
  have hrest := @List.takeWhile_append_dropWhile _ (· ≠ '?') rest
  have hno : '?' ∉ rest.takeWhile (· ≠ '?') := by
    intro hmem
    simpa using List.mem_takeWhile_imp hmem
  cases hafter : afterAt (fun _ ↦ true) (rest.takeWhile (· ≠ '?')) with
  | none =>
    refine ⟨⟨scheme, none, rest.takeWhile (· ≠ '?'), query, hhead, hplain, by simp,
      afterAt_eq_none.mp hafter, hno, hhead'⟩, rfl, ?_⟩
    simp only [text, htext, hend, Option.map_none, Option.getD_none, List.append_nil]
    rw [List.append_assoc, hrest]
    simp
  | some location =>
    obtain ⟨userinfo, heq, huserinfo, hlocation⟩ := exists_of_afterAt hafter
    have hno' : '?' ∉ location := by
      intro hmem
      apply hno
      rw [heq]
      simp [hmem]
    refine ⟨⟨scheme, some userinfo, location, query, hhead, hplain, ?_, hlocation, hno', hhead'⟩,
      rfl, ?_⟩
    · intro u hu c hc
      obtain rfl := Option.some.inj hu
      exact huserinfo c hc
    · rw [heq] at hrest
      conv_rhs => rw [← hrest]
      simp [text, htext, hend]

/-- The userinfo goes, whatever it is, and nothing else does. -/
theorem removeUserinfo_append {rest : Text} (hrest : ∀ c ∈ rest.head?, c = '?') :
    removeUserinfo (u.scheme ++ "://".toList ++ (u.userinfo.map (· ++ ['@'])).getD [] ++
      u.location ++ rest) = u.base ++ rest := by
  have hplain := u.authority_append hrest
  have hend : "://".toList = [':', '/', '/'] := rfl
  have hafter : (afterAt (fun _ ↦ true) ((u.userinfo.map (· ++ ['@'])).getD [] ++ u.location ++
      rest)).getD ((u.userinfo.map (· ++ ['@'])).getD [] ++ u.location ++ rest) =
      u.location ++ rest := by
    cases huserinfo : u.userinfo with
    | none =>
      simp [afterAt_eq_none.mpr hplain]
    | some userinfo =>
      have happ := afterAt_append (u.userinfo_plain userinfo huserinfo) (u.location ++ rest)
      rw [afterAt_eq_none.mpr hplain] at happ
      simp [happ]
  have hurl := removeUrlUserinfo_scheme u.scheme_head u.scheme_plain
    ((u.userinfo.map (· ++ ['@'])).getD [] ++ u.location ++ rest)
  have hhost := removeHostUserinfo_scheme u.scheme_plain ('/' :: (u.location ++ rest))
  rw [hafter] at hurl
  simp only [removeUserinfo, base, hend, List.append_assoc, List.cons_append, List.nil_append] at *
  rw [hurl, hhost]

theorem removeUserinfo_text : removeUserinfo u.text = u.base ++ u.query.flatMap Parameter.text :=
  u.removeUserinfo_append u.query_text_head

theorem text_before_query : ∀ c ∈ u.scheme ++ "://".toList ++
    (u.userinfo.map (· ++ ['@'])).getD [] ++ u.location, decide (c ≠ '?') = true := by
  have hend : "://".toList = [':', '/', '/'] := rfl
  intro c hc
  rw [decide_eq_true_iff]
  rintro rfl
  simp only [hend, List.mem_append] at hc
  rcases hc with ((hc | hc) | hc) | hc
  · cases u.scheme_plain _ hc
  · simp at hc
  · cases huserinfo : u.userinfo with
    | none =>
      rw [huserinfo] at hc
      cases hc
    | some userinfo =>
      rw [huserinfo] at hc
      rcases List.mem_append.mp hc with hc | hc
      · cases u.userinfo_plain userinfo huserinfo _ hc
      · simp at hc
  · exact u.location_plain hc

theorem urlForLog_text : urlForLog rt u.text = u.shown rt := by
  have hhead : ∀ c ∈ (u.query.flatMap Parameter.text).head?, decide (c ≠ '?') = false := by
    intro c hc
    simp [u.query_text_head c hc]
  have hbefore := u.text_before_query
  have htake : u.text.takeWhile (· ≠ '?') = u.scheme ++ "://".toList ++
      (u.userinfo.map (· ++ ['@'])).getD [] ++ u.location := by
    rw [text, Lib.takeWhile_append_head hhead, List.takeWhile_eq_self_iff.mpr hbefore]
  have hdrop : u.text.dropWhile (· ≠ '?') = u.query.flatMap Parameter.text := by
    rw [text, Lib.dropWhile_append_head hhead, List.dropWhile_eq_nil_iff.mpr hbefore,
      List.nil_append]
  have hbase := @removeUserinfo_append u [] (fun c hc ↦ by cases hc)
  rw [List.append_nil, List.append_nil] at hbase
  rw [urlForLog, htake, hdrop, hbase, shown]
  congr 1
  split_ifs with hmem
  · have happ := @redactQueryString_append rt _ (Parameter.bounded_query u.query) []
    have hnil : redactQueryString rt [] = [] := redactQueryString_of_notMem List.not_mem_nil
    rw [List.nil_append, hnil, Parameter.replaceParameters_query] at happ
    exact happ
  · cases hquery : u.query with
    | nil => rfl
    | cons p query =>
      exfalso
      apply hmem
      have hp := u.query_head p (by rw [hquery]; rfl)
      simp [text, hquery, Parameter.text, hp]

theorem redactForLog_text {key : Option Key} (hkey : keyKind key = none) :
    redactForLog rt (.scalar (.string u.text)) key = .scalar (.string
      (redactQueryString rt u.base ++ u.query.flatMap (Parameter.shown rt))) := by
  have hredact := @redactQueryString_append rt _ (Parameter.bounded_query u.query) u.base
  rw [Parameter.replaceParameters_query] at hredact
  rw [redactForLog, ← hredact]
  simp only [redactScalar, hkey, removeUserinfo_text]
  split_ifs with h
  · rfl
  · rw [redactQueryString_of_notMem h]

/-- What is before the query is kept too where it has no equals sign. -/
theorem redactForLog_shown (hlocation : '=' ∉ u.location) {key : Option Key}
    (hkey : keyKind key = none) :
    redactForLog rt (.scalar (.string u.text)) key = .scalar (.string (u.shown rt)) := by
  have hbase : '=' ∉ u.base := by
    have hend : "://".toList = [':', '/', '/'] := rfl
    have hscheme : '=' ∉ u.scheme := fun hc ↦ by cases u.scheme_plain _ hc
    simp [base, hend, hscheme, hlocation]
  rw [redactForLog_text u hkey, redactQueryString_of_notMem hbase]
  rfl

end Url

mutual

/-- Arrays of one shape. Two scalars differ only under a key of their own that is a secret's, or,
where the key is no token's, as two URLs do that differ in nothing but their secrets. -/
def Alike : Option Key → Data → Data → Prop
  | _, .array entries, .array entries' => AlikeEntries entries entries'
  | key, .scalar value, .scalar value' =>
    value = value' ∨ keyKind key = some .secret ∨
      keyKind key ≠ some .token ∧ ∃ u v : Url,
        u.Alike v ∧ value = .string u.text ∧ value' = .string v.text
  | _, .object className, .object className' => className = className'
  | _, _, _ => False

def AlikeEntries : List (Key × Data) → List (Key × Data) → Prop
  | [], [] => True
  | (key, value) :: entries, (key', value') :: entries' =>
    key = key' ∧ Alike (some key) value value' ∧ AlikeEntries entries entries'
  | _, _ => False

end

theorem redactForLog_url {u v : Url} (h : u.Alike v) {key : Option Key}
    (hkey : keyKind key ≠ some .token) :
    redactForLog rt (.scalar (.string u.text)) key =
      redactForLog rt (.scalar (.string v.text)) key := by
  cases hkind : keyKind key with
  | none =>
    rw [u.redactForLog_text hkind, v.redactForLog_text hkind, Url.base_eq h,
      Url.shown_query_eq h.query]
  | some kind =>
    cases kind with
    | secret => simp only [redactForLog, redactScalar, hkind]
    | token => exact absurd hkind hkey

mutual

theorem redactForLog_alike : ∀ {key : Option Key} {data data' : Data}, Alike key data data' →
    redactForLog rt data key = redactForLog rt data' key
  | key, .array entries, .array entries', h => by
    rw [Alike] at h
    rw [redactForLog, redactForLog, redactEntries_alike h]
  | key, .scalar value, .scalar value', h => by
    rw [Alike] at h
    rcases h with h | h | ⟨hkey, u, v, hurl, hu, hv⟩
    · rw [h]
    · simp only [redactForLog, redactScalar, h]
    · rw [hu, hv]
      exact redactForLog_url hurl hkey
  | key, .object className, .object className', h => by
    rw [Alike] at h
    rw [h]

theorem redactEntries_alike : ∀ {entries entries' : List (Key × Data)},
    AlikeEntries entries entries' → redactEntries rt entries = redactEntries rt entries'
  | [], [], _ => rfl
  | (key, value) :: entries, (key', value') :: entries', h => by
    rw [AlikeEntries] at h
    obtain ⟨hkey, hvalue, hentries⟩ := h
    subst hkey
    rw [redactEntries, redactEntries, redactForLog_alike hvalue, redactEntries_alike hentries]

end

/-- What is logged does not depend on secrets: not on a scalar under a secret's key, nor, where the
key is no token's, on the userinfo of a URL and on the values of its secret parameters. The rest of
a URL is kept, but for the fingerprints of tokens, and but for what stands before the query where
it reads as a query string itself. -/
theorem log_independent (rt : Runtime) :
    (∀ key data data', Alike key data data' →
      redactForLog rt data key = redactForLog rt data' key) ∧
    (∀ scheme userinfo userinfo' rest : Text, scheme.head?.any Char.isAlpha = true →
      (∀ c ∈ scheme, schemeChar c = true) → (∀ c ∈ userinfo, authorityEnd c = false) →
      (∀ c ∈ userinfo', authorityEnd c = false) →
      urlForLog rt (userinfoUrl scheme userinfo rest) =
        urlForLog rt (userinfoUrl scheme userinfo' rest) ∧
      ∀ key, keyKind key ≠ some .token →
        redactForLog rt (.scalar (.string (userinfoUrl scheme userinfo rest))) key =
          redactForLog rt (.scalar (.string (userinfoUrl scheme userinfo' rest))) key) ∧
    (∀ u v : Url, u.Alike v → urlForLog rt u.text = urlForLog rt v.text ∧
      ∀ key, keyKind key ≠ some .token →
        redactForLog rt (.scalar (.string u.text)) key =
          redactForLog rt (.scalar (.string v.text)) key) ∧
    (∀ scheme rest : Text, scheme.head?.any Char.isAlpha = true →
      (∀ c ∈ scheme, schemeChar c = true) →
      ∃ u : Url, u.text = scheme ++ "://".toList ++ rest) ∧
    ∀ u : Url, urlForLog rt u.text = u.shown rt ∧ ∀ key, keyKind key = none →
      redactForLog rt (.scalar (.string u.text)) key = .scalar (.string
        (redactQueryString rt u.base ++ u.query.flatMap (Parameter.shown rt))) ∧
      ('=' ∉ u.location →
        redactForLog rt (.scalar (.string u.text)) key = .scalar (.string (u.shown rt))) := by
  refine ⟨fun _ _ _ h ↦ redactForLog_alike h, ?_, ?_, ?_, ?_⟩
  · intro scheme userinfo userinfo' rest hhead hplain hinfo hinfo'
    exact ⟨urlForLog_differ hhead hplain hinfo hinfo' rest,
      fun key hkey ↦ redactForLog_differ hhead hplain hinfo hinfo' rest hkey⟩
  · intro u v h
    refine ⟨?_, fun key hkey ↦ redactForLog_url h hkey⟩
    rw [u.urlForLog_text, v.urlForLog_text, Url.shown_eq h]
  · intro scheme rest hhead hplain
    obtain ⟨u, -, hu⟩ := Url.exists_text hhead hplain rest
    refine ⟨u, hu.trans ?_⟩
    have hend : "://".toList = [':', '/', '/'] := rfl
    simp [hend]
  · intro u
    exact ⟨u.urlForLog_text, fun key hkey ↦
      ⟨u.redactForLog_text hkey, fun hlocation ↦ u.redactForLog_shown hlocation hkey⟩⟩

/-- A URL with a userinfo and one parameter. -/
def cameraUrl (userinfo name value : Text)
    (huserinfo : userinfo.all (fun c ↦ !authorityEnd c) = true)
    (hname : name.all nameChar = true) (hvalue : value.all valueChar = true) : Url where
  scheme := "http".toList
  userinfo := some userinfo
  location := "192.0.2.5/s".toList
  query := [{
    separator := '?'
    name := name
    value := some value
    separates := rfl
    name_plain := List.all_eq_true.mp hname
    value_plain := by
      intro v hv
      obtain rfl := Option.some.inj hv
      exact List.all_eq_true.mp hvalue }]
  scheme_head := rfl
  scheme_plain := List.all_eq_true.mp rfl
  userinfo_plain := by
    intro u hu c hc
    obtain rfl := Option.some.inj hu
    simpa using List.all_eq_true.mp huserinfo c hc
  authority_plain := by simp [authority, authorityEnd, space]
  location_plain := by simp
  query_head := by
    intro p hp
    obtain rfl := Option.some.inj hp
    rfl

/-- The digests of two URLs; other texts are not hashed here. -/
def urlRuntime : Runtime where
  sha256 text :=
    if text = "rtsp://a@h".toList then
      "61acd4bc9ead03c62b377dde898fe7c4ac002090af15b8ac79862735a572a2dc".toList
    else if text = "rtsp://b@h".toList then
      "5e7d5630c1dc16d475f5010bfb56a8977e6eb71d302e65f9d0bd3bd6d5053c06".toList
    else []
  floatText _ := []

theorem log_independent_camera :
    redactForLog urlRuntime (.array [(.name "Name".toList, .scalar (.string "Front".toList)),
        (.name "Pass".toList, .scalar (.string "campw".toList))]) none =
      redactForLog urlRuntime (.array [(.name "Name".toList, .scalar (.string "Front".toList)),
        (.name "Pass".toList, .scalar (.string "other".toList))]) none ∧
    urlForLog urlRuntime (userinfoUrl "rtsp".toList "admin:p@ss".toList "h/s".toList) =
      urlForLog urlRuntime (userinfoUrl "rtsp".toList "bob".toList "h/s".toList) ∧
    urlForLog urlRuntime (cameraUrl "bob".toList "pass".toList "campw".toList rfl rfl rfl).text =
      urlForLog urlRuntime (cameraUrl [] "pass".toList "hunter2".toList rfl rfl rfl).text ∧
    redactForLog urlRuntime (.scalar (.string
        (cameraUrl "bob".toList "pass".toList "campw".toList rfl rfl rfl).text)) none =
      .scalar (.string
        ((cameraUrl "bob".toList "pass".toList "campw".toList rfl rfl rfl).shown urlRuntime)) := by
  refine ⟨(log_independent urlRuntime).1 _ _ _ ?_,
    ((log_independent urlRuntime).2.1 _ _ _ _ rfl (List.all_eq_true.mp rfl) ?_ ?_).1,
    ((log_independent urlRuntime).2.2.1 _ _ ?_).1,
    (((log_independent urlRuntime).2.2.2.2 _).2 _ rfl).2 ?_⟩
  · have hpass : keyKind (some (.name "Pass".toList)) = some .secret := rfl
    simp only [Alike, AlikeEntries, hpass]
    simp
  · simp [authorityEnd, space]
  · simp [authorityEnd, space]
  · refine ⟨rfl, rfl, .cons ⟨rfl, rfl, rfl, fun h ↦ absurd rfl h⟩ .nil⟩
  · simp [cameraUrl]

/-- An array under a secret's key is logged in full; what has a token's fingerprint in its place is
not kept, and depends on the userinfo; and a part before the query that reads as a parameter is not
kept either. -/
theorem redacted_differ :
    (∀ rt, redactForLog rt (.array [(.name "password".toList,
        .array [(.index 0, .scalar (.string "hunter2".toList))])]) none ≠
      redactForLog rt (.array [(.name "password".toList,
        .array [(.index 0, .scalar (.string "other".toList))])]) none) ∧
    (∀ rt, urlForLog rt "http://bob@192.0.2.5/s?token=x".toList ≠
      "http://192.0.2.5/s?token=x".toList) ∧
    redactForLog urlRuntime (.scalar (.string "rtsp://a@h".toList)) (some (.name "token".toList)) ≠
      redactForLog urlRuntime (.scalar (.string "rtsp://b@h".toList))
        (some (.name "token".toList)) ∧
    redactForLog urlRuntime (.scalar (.string "http://h/s&pass=x?y=1".toList)) none =
      .scalar (.string "http://h/s&pass=[redacted]?y=1".toList) := by
  refine ⟨?_, ?_, ?_, ?_⟩
  · intro rt h
    have hkept : ∀ value : Text, keyKind (some (.index 0)) = none → removeUserinfo value = value →
        '=' ∉ value → redactForLog rt (.array [(.name "password".toList,
          .array [(.index 0, .scalar (.string value))])]) none =
        .array [(.name "password".toList, .array [(.index 0, .scalar (.string value))])] := by
      intro value hkey hremove hvalue
      simp [redactForLog, redactEntries, redactScalar, hkey, hremove, hvalue]
    rw [hkept _ rfl rfl (by simp), hkept _ rfl rfl (by simp)] at h
    simp at h
  · intro rt h
    have hurl := @Url.urlForLog_text rt
      (cameraUrl "bob".toList "token".toList "x".toList rfl rfl rfl)
    have htext : (cameraUrl "bob".toList "token".toList "x".toList rfl rfl rfl).text =
      "http://bob@192.0.2.5/s?token=x".toList := rfl
    rw [htext, h] at hurl
    have hat := congrArg (fun text ↦ text[25]?) hurl
    have hshown : ((cameraUrl "bob".toList "token".toList "x".toList rfl rfl rfl).shown rt)[25]? =
      some 'f' := rfl
    simp only [hshown] at hat
    simp at hat
  · have hkey : keyKind (some (.name "token".toList)) = some .token := rfl
    have ha : logFingerprint urlRuntime (.string "rtsp://a@h".toList) = "fp:61acd4bc".toList := rfl
    have hb : logFingerprint urlRuntime (.string "rtsp://b@h".toList) = "fp:5e7d5630".toList := rfl
    simp only [redactForLog, redactScalar, hkey, ha, hb]
    simp
  · have hshown : redactQueryString urlRuntime "http://h/s&pass=x?y=1".toList =
        "http://h/s&pass=[redacted]?y=1".toList := by
      decide +kernel
    rw [redactForLog, ← hshown]
    rfl

end ZoneMinder.LogRedact
