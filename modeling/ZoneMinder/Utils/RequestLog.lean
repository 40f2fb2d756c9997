import ZoneMinder.Utils.Userinfo

namespace ZoneMinder.Utils

open Lib

def urlForLog (url : List Char) : Option (List Char) :=
  match findFrom (· = '?') url 0 with
  | none => removeAuthentication url
  | some queryAt =>
    ((slice url 0 (some queryAt)).bind removeAuthentication).map (· ++ "?...".toList)

/-- The first line of a request: a method, a target and a version. -/
def requestLineForLog (line : List Char) : Option (List Char) :=
  match findFrom (· = ' ') line 0 with
  | none => some line
  | some sp1 =>
    match findFrom (· = ' ') line (sp1 + 1) with
    | none => some line
    | some sp2 =>
      ((slice line (sp1 + 1) (some sp2)).bind urlForLog).bind fun url ↦
        (slice line sp2 none).map fun version ↦ line.take (sp1 + 1) ++ url ++ version

def secretName (name : List Char) : Bool :=
  let name := name.map Char.toLower
  name = "authorization".toList || name = "proxy-authorization".toList

def headerForLog (line : List Char) : List Char :=
  match findFrom (· = ':') line 0 with
  | none => line
  | some colon =>
    if secretName (line.take colon) then line.take colon ++ ": <not logged>".toList else line

def isEol (c : Char) : Bool := c = '\n' || c = '\r'

/-- Up to where the next line reaches, with what ends it. -/
def nextAt (rest : List Char) : ℕ :=
  match findFrom (· = '\n') rest 0 with
  | none => rest.length
  | some eol => eol + 1

/-- The loop over the lines of a request, from `start` on. -/
def requestForLogFrom (first : Bool) : List Char → Option (List Char)
  | [] => some []
  | c :: rest =>
    let next := (c :: rest).take (nextAt (c :: rest))
    let line := next.rdropWhile isEol
    (if first then requestLineForLog line else some (headerForLog line)).bind fun line' ↦
      (requestForLogFrom false ((c :: rest).drop (nextAt (c :: rest)))).map fun out ↦
        line' ++ next.drop line.length ++ out
termination_by rest => rest.length
decreasing_by
  rw [List.length_drop, nextAt]
  split <;> simp only [List.length_cons] <;> omega

def requestForLog (request : List Char) : Option (List Char) := requestForLogFrom true request

/-- A line of a request, and what ends it. -/
structure Line where
  content : List Char
  returns : ℕ
  terminated : Bool
  content_plain : '\n' ∉ content
  content_last : ∀ c ∈ content.getLast?, c ≠ '\r'

namespace Line

variable (l : Line)

/-- LF and CRLF are endings with no and with one carriage return. -/
def ending : List Char := List.replicate l.returns '\r' ++ if l.terminated then ['\n'] else []

def text : List Char := l.content ++ l.ending

/-- The name of a header. -/
def name : List Char := l.content.takeWhile (· ≠ ':')

def Secret : Prop := ':' ∈ l.content ∧ secretName l.name

instance : Decidable l.Secret := inferInstanceAs (Decidable (_ ∧ _))

/-- The line as a log shows it. -/
def shown : List Char :=
  if l.Secret then l.name ++ ": <not logged>".toList ++ l.ending else l.text

/-- The two differ in the value of a secret header at most. -/
structure Alike (l m : Line) : Prop where
  returns : l.returns = m.returns
  terminated : l.terminated = m.terminated
  content : l.content = m.content ∨ l.Secret ∧ m.Secret ∧ l.name = m.name

variable {l} {m : Line} {rest : List Char}

theorem Alike.shown_eq (h : l.Alike m) : l.shown = m.shown := by
  have hending : l.ending = m.ending := by
    rw [ending, ending, h.returns, h.terminated]
  rcases h.content with hcontent | ⟨hl, hm, hname⟩
  · have hsecret : l.Secret ↔ m.Secret := by
      rw [Secret, Secret, name, name, hcontent]
    simp only [shown, text, hending, hsecret, name, hcontent]
  · rw [shown, shown, if_pos hl, if_pos hm, hname, hending]

theorem Alike.flatMap_shown {lines lines' : List Line} (h : List.Forall₂ Alike lines lines') :
    lines.flatMap shown = lines'.flatMap shown := by
  induction h with
  | nil => rfl
  | cons hl _ ih => rw [List.flatMap_cons, List.flatMap_cons, hl.shown_eq, ih]

theorem nextAt_text (h : l.terminated = false → rest = []) :
    nextAt (l.text ++ rest) = l.text.length := by
  have hplain : ∀ c ∈ l.content ++ List.replicate l.returns '\r', decide (c = '\n') = false := by
    intro c hc
    rcases List.mem_append.mp hc with hc | hc
    · simpa using fun heq : c = '\n' ↦ l.content_plain (heq ▸ hc)
    · rw [(List.mem_replicate.mp hc).2]
      rfl
  rw [nextAt]
  cases ht : l.terminated with
  | false =>
    have htext : l.text = l.content ++ List.replicate l.returns '\r' := by
      rw [text, ending, ht]
      simp
    rw [h ht, List.append_nil, htext, findFrom_zero_eq_none.mpr hplain]
  | true =>
    have htext : l.text ++ rest = (l.content ++ List.replicate l.returns '\r') ++ '\n' :: rest := by
      rw [text, ending, ht]
      simp
    rw [htext, findFrom_zero_append hplain rfl, text, ending, ht]
    simp [Nat.add_assoc]

theorem rdropWhile_text (l : Line) : l.text.rdropWhile isEol = l.content := by
  have hending : ∀ c ∈ l.ending, isEol c := by
    intro c hc
    rcases List.mem_append.mp hc with hc | hc
    · rw [(List.mem_replicate.mp hc).2]
      rfl
    · split_ifs at hc
      · rw [List.mem_singleton.mp hc]
        rfl
      · cases hc
  rw [text, rdropWhile_append_of_all hending]
  refine List.rdropWhile_eq_self_iff.mpr fun hne ↦ ?_
  have hmem := List.getLast_mem hne
  have hlast := l.content_last _ (List.getLast?_eq_some_getLast hne)
  simp only [isEol, Bool.or_eq_true, decide_eq_true_eq, not_or]
  exact ⟨fun heq ↦ l.content_plain (heq ▸ hmem), hlast⟩

theorem headerForLog_content (l : Line) : headerForLog l.content ++ l.ending = l.shown := by
  by_cases hcolon : ':' ∈ l.content
  · obtain ⟨value, hvalue⟩ := exists_takeWhile_append hcolon
    have hname : ∀ c ∈ l.name, decide (c = ':') = false := by
      intro c hc
      simpa using List.mem_takeWhile_imp hc
    have hcontent : l.content = l.name ++ ':' :: value := hvalue
    have hfind : findFrom (· = ':') l.content 0 = some l.name.length := by
      rw [hcontent]
      exact findFrom_zero_append hname rfl
    have htake : l.content.take l.name.length = l.name := by
      rw [hcontent]
      exact List.take_left
    rw [headerForLog, hfind]
    simp only [htake]
    by_cases hsecret : secretName l.name
    · rw [if_pos hsecret, shown, if_pos ⟨hcolon, hsecret⟩]
    · rw [if_neg hsecret, shown, if_neg fun h ↦ hsecret h.2, text]
  · have hfind : findFrom (· = ':') l.content 0 = none := by
      refine findFrom_zero_eq_none.mpr fun c hc ↦ ?_
      simpa using fun heq : c = ':' ↦ hcolon (heq ▸ hc)
    have hsecret : ¬ l.Secret := fun h ↦ hcolon h.1
    rw [headerForLog, hfind, shown, if_neg hsecret, text]

end Line

theorem requestForLogFrom_text {l : Line} {rest : List Char} (first : Bool) (hne : l.text ≠ [])
    (h : l.terminated = false → rest = []) :
    requestForLogFrom first (l.text ++ rest) =
      (if first then requestLineForLog l.content else some (headerForLog l.content)).bind
        fun line ↦ (requestForLogFrom false rest).map fun out ↦ line ++ l.ending ++ out := by
  obtain ⟨c, cs, hcons⟩ := List.exists_cons_of_ne_nil (List.append_ne_nil_of_left_ne_nil hne rest)
  have hnext := Line.nextAt_text h
  rw [hcons] at hnext ⊢
  have htake : (c :: cs).take l.text.length = l.text := by rw [← hcons, List.take_left]
  have hdrop : (c :: cs).drop l.text.length = rest := by rw [← hcons, List.drop_left]
  have hending : l.text.drop l.content.length = l.ending := List.drop_left
  rw [requestForLogFrom, hnext]
  simp only [htake, hdrop, Line.rdropWhile_text, hending]

theorem requestForLogFrom_headers {lines : List Line} (h : ∀ l ∈ lines.dropLast, l.terminated) :
    requestForLogFrom false (lines.flatMap Line.text) = some (lines.flatMap Line.shown) := by
  induction lines with
  | nil => rw [List.flatMap_nil, List.flatMap_nil, requestForLogFrom]
  | cons l lines ih =>
    have hlines : ∀ m ∈ lines.dropLast, m.terminated := by
      intro m hm
      cases lines with
      | nil => cases hm
      | cons n lines => exact h m (List.mem_cons_of_mem l hm)
    have hend : l.terminated = false → lines.flatMap Line.text = [] := by
      intro hterminated
      cases lines with
      | nil => rfl
      | cons m lines => simpa [hterminated] using h l List.mem_cons_self
    rw [List.flatMap_cons, List.flatMap_cons]
    by_cases hne : l.text = []
    · have hcontent : l.content = [] := (List.append_eq_nil_iff.mp hne).1
      have hsecret : ¬ l.Secret := fun h ↦ by simpa [hcontent] using h.1
      rw [hne, Line.shown, if_neg hsecret, hne]
      exact ih hlines
    · rw [requestForLogFrom_text false hne hend, ih hlines]
      simp [← Line.headerForLog_content]

/-- A request by its lines. -/
structure Request where
  method : List Char
  target : List Char
  version : List Char
  first : Line
  headers : List Line
  first_content : first.content = method ++ ' ' :: target ++ ' ' :: version
  method_plain : ' ' ∉ method
  target_plain : ' ' ∉ target
  complete : ∀ l ∈ (first :: headers).dropLast, l.terminated

def Request.text (r : Request) : List Char := r.first.text ++ r.headers.flatMap Line.text

theorem requestLineForLog_eq {method target version : List Char} (hmethod : ' ' ∉ method)
    (htarget : ' ' ∉ target) :
    requestLineForLog (method ++ ' ' :: target ++ ' ' :: version) =
      (urlForLog target).map fun url ↦ method ++ ' ' :: url ++ ' ' :: version := by
  have hfirst : ∀ c ∈ method, decide (c = ' ') = false := fun c hc ↦
    decide_eq_false fun heq ↦ hmethod (heq ▸ hc)
  have hsecond : ∀ c ∈ target, decide (c = ' ') = false := fun c hc ↦
    decide_eq_false fun heq ↦ htarget (heq ▸ hc)
  have hsp1 : findFrom (· = ' ') (method ++ ' ' :: target ++ ' ' :: version) 0 =
      some method.length := by
    rw [List.append_assoc, List.cons_append]
    exact findFrom_zero_append hfirst rfl
  have hline : method ++ ' ' :: target ++ ' ' :: version =
      (method ++ [' ']) ++ target ++ ' ' :: version := by simp
  have hlength : method.length + 1 = (method ++ [' ']).length := by simp
  have hsp2 : findFrom (· = ' ') (method ++ ' ' :: target ++ ' ' :: version) (method.length + 1) =
      some ((method ++ [' ']).length + target.length) := by
    rw [hline, hlength]
    exact findFrom_append hsecond rfl
  have htarget' : slice (method ++ ' ' :: target ++ ' ' :: version) (method.length + 1)
      (some ((method ++ [' ']).length + target.length)) = some target := by
    rw [hline, hlength]
    exact slice_some_append
  have hversion : slice (method ++ ' ' :: target ++ ' ' :: version)
      ((method ++ [' ']).length + target.length) none = some (' ' :: version) := by
    rw [hline, ← List.length_append]
    exact slice_none_append
  have hmethod' : (method ++ ' ' :: target ++ ' ' :: version).take (method.length + 1) =
      method ++ [' '] := by
    rw [hline, hlength, List.append_assoc, List.take_left]
  rw [requestLineForLog, hsp1]
  simp only [hsp2, htarget', hversion, hmethod', Option.bind_some, Option.map_some]
  cases urlForLog target with
  | none => rfl
  | some url => simp

theorem urlForLog_query {base : List Char} (h : '?' ∉ base) (query : List Char) :
    urlForLog (base ++ '?' :: query) = (removeAuthentication base).map (· ++ "?...".toList) := by
  have hplain : ∀ c ∈ base, decide (c = '?') = false := fun c hc ↦
    decide_eq_false fun heq ↦ h (heq ▸ hc)
  have hslice : slice (base ++ '?' :: query) 0 (some base.length) = some base := by simp [slice]
  rw [urlForLog, findFrom_zero_append hplain rfl]
  simp only [hslice, Option.bind_some]

section Alike

variable {s rest base t : List Char} {userinfo : Option (List Char)} {r r' : Request}

theorem urlForLog_eq (h : '?' ∉ t) : urlForLog t = removeAuthentication t := by
  have hplain : ∀ c ∈ t, decide (c = '?') = false := fun c hc ↦
    decide_eq_false fun heq ↦ h (heq ▸ hc)
  rw [urlForLog, findFrom_zero_eq_none.mpr hplain]

theorem urlForLog_isSome (url : List Char) : (urlForLog url).isSome := by
  by_cases h : '?' ∈ url
  · obtain ⟨query, hquery⟩ := exists_takeWhile_append h
    have hplain : '?' ∉ url.takeWhile (fun c ↦ c ≠ '?') := fun hmem ↦ by
      simpa using List.mem_takeWhile_imp hmem
    rw [hquery, urlForLog_query hplain, Option.isSome_map]
    exact Url.removeAuthentication_isSome _
  · rw [urlForLog_eq h]
    exact Url.removeAuthentication_isSome url

/-- Of an absolute target the log shows what it would without the userinfo. -/
theorem urlForLog_absolute (hs : ∀ c ∈ s, authorityEnd c = false ∧ c ≠ '@')
    (hinfo : ∀ A ∈ userinfo, ∀ c ∈ A, authorityEnd c = false)
    (hrest : '@' ∉ rest.takeWhile (fun c ↦ !authorityEnd c)) :
    urlForLog (Url.absolute s userinfo rest) = urlForLog (Url.absolute s none rest) := by
  have hmark {t : List Char} (ht : ∀ c ∈ t, authorityEnd c = false) : '?' ∉ t := fun hmem ↦
    Bool.false_ne_true ((ht '?' hmem).symm.trans rfl)
  have hplain {info : Option (List Char)} {rest : List Char}
      (hinfo : ∀ A ∈ info, ∀ c ∈ A, authorityEnd c = false) (hrest : '?' ∉ rest) :
      '?' ∉ Url.absolute s info rest := by
    have hscheme := hmark fun c hc ↦ (hs c hc).1
    cases info with
    | none => simp [Url.absolute, hscheme, hrest]
    | some A => simp [Url.absolute, hscheme, hrest, hmark (hinfo A rfl)]
  by_cases hquery : '?' ∈ rest
  · obtain ⟨query, hsplit⟩ := exists_takeWhile_append hquery
    have hpath : '?' ∉ rest.takeWhile (fun c ↦ c ≠ '?') := fun hmem ↦ by
      simpa using List.mem_takeWhile_imp hmem
    generalize rest.takeWhile (fun c ↦ c ≠ '?') = path at hsplit hpath
    subst hsplit
    rw [takeWhile_append_head (by simp [authorityEnd])] at hrest
    have htext (info : Option (List Char)) :
        Url.absolute s info (path ++ '?' :: query) = Url.absolute s info path ++ '?' :: query := by
      simp [Url.absolute]
    rw [htext, htext, urlForLog_query (hplain hinfo hpath), urlForLog_query (hplain (by simp) hpath),
      Url.removeAuthentication_absolute hs hinfo hrest,
      Url.removeAuthentication_absolute hs (by simp) hrest]
  · rw [urlForLog_eq (hplain hinfo hquery), urlForLog_eq (hplain (by simp) hquery),
      Url.removeAuthentication_absolute hs hinfo hrest,
      Url.removeAuthentication_absolute hs (by simp) hrest]

/-- Two targets that differ in the query, where both have one, or in the userinfo. -/
inductive SameTarget : List Char → List Char → Prop
  | refl (t : List Char) : SameTarget t t
  | query {base : List Char} (hbase : '?' ∉ base) (query query' : List Char) :
      SameTarget (base ++ '?' :: query) (base ++ '?' :: query')
  | userinfo {s rest : List Char} {userinfo userinfo' : Option (List Char)}
      (hs : ∀ c ∈ s, authorityEnd c = false ∧ c ≠ '@')
      (hinfo : ∀ A ∈ userinfo, ∀ c ∈ A, authorityEnd c = false)
      (hinfo' : ∀ A ∈ userinfo', ∀ c ∈ A, authorityEnd c = false)
      (hrest : '@' ∉ rest.takeWhile (fun c ↦ !authorityEnd c)) :
      SameTarget (Url.absolute s userinfo rest) (Url.absolute s userinfo' rest)
  | trans {t u v : List Char} : SameTarget t u → SameTarget u v → SameTarget t v

theorem SameTarget.urlForLog_eq {t u : List Char} (h : SameTarget t u) :
    urlForLog t = urlForLog u := by
  induction h with
  | refl => rfl
  | query hbase => rw [urlForLog_query hbase, urlForLog_query hbase]
  | userinfo hs hinfo hinfo' hrest =>
    rw [urlForLog_absolute hs hinfo hrest, urlForLog_absolute hs hinfo' hrest]
  | trans _ _ ih ih' => exact ih.trans ih'

/-- Two requests that differ in secrets at most. -/
structure Request.Alike (r r' : Request) : Prop where
  method : r.method = r'.method
  target : SameTarget r.target r'.target
  version : r.version = r'.version
  first : r.first.ending = r'.first.ending
  headers : List.Forall₂ Line.Alike r.headers r'.headers

theorem requestForLog_text (r : Request) :
    requestForLog r.text = (urlForLog r.target).map fun url ↦
      r.method ++ ' ' :: url ++ ' ' :: r.version ++ r.first.ending ++
        r.headers.flatMap Line.shown := by
  have hne : r.first.text ≠ [] := by
    intro hnil
    have hcontent := (List.append_eq_nil_iff.mp hnil).1
    rw [r.first_content] at hcontent
    simp at hcontent
  have hend : r.first.terminated = false → r.headers.flatMap Line.text = [] := by
    intro hterminated
    have hcomplete := r.complete
    cases hheaders : r.headers with
    | nil => rfl
    | cons l headers => simpa [hheaders, hterminated] using hcomplete r.first (by simp [hheaders])
  have hheaders : ∀ l ∈ r.headers.dropLast, l.terminated := by
    intro l hl
    have hcomplete := r.complete
    cases hheaders : r.headers with
    | nil => simp [hheaders] at hl
    | cons m headers =>
      rw [hheaders] at hl hcomplete
      exact hcomplete l (List.mem_cons_of_mem _ hl)
  rw [requestForLog, Request.text, requestForLogFrom_text true hne hend,
    requestForLogFrom_headers hheaders, if_pos rfl, r.first_content,
    requestLineForLog_eq r.method_plain r.target_plain]
  cases urlForLog r.target <;> simp

/-- Of two requests that differ in their secrets the log shows the same, and every line but the
request line and those of secret headers as it is. -/
theorem requestForLog_alike (h : r.Alike r') :
    requestForLog r.text = requestForLog r'.text ∧
      ∃ url, urlForLog r.target = some url ∧ requestForLog r.text =
        some (r.method ++ ' ' :: url ++ ' ' :: r.version ++ r.first.ending ++
          r.headers.flatMap fun l ↦
            if l.Secret then l.name ++ ": <not logged>".toList ++ l.ending else l.text) := by
  constructor
  · rw [requestForLog_text, requestForLog_text, h.method, h.target.urlForLog_eq, h.version, h.first,
      Line.Alike.flatMap_shown h.headers]
  · obtain ⟨url, hurl⟩ := Option.isSome_iff_exists.mp (urlForLog_isSome r.target)
    refine ⟨url, hurl, ?_⟩
    rw [requestForLog_text, hurl]
    rfl

theorem requestForLog_alike_basic :
    requestForLog "GET http://u:p@h/s?a HTTP/1.0\r\nAUTHORIZATION: Basic x\r\nHost: h".toList =
      requestForLog "GET http://v@h/s?b HTTP/1.0\r\nAUTHORIZATION: y\r\nHost: h".toList := by
  let host : Line := ⟨"Host: h".toList, 0, false, by decide, by simp⟩
  let r : Request := ⟨"GET".toList, "http://u:p@h/s?a".toList, "HTTP/1.0".toList,
    ⟨"GET http://u:p@h/s?a HTTP/1.0".toList, 1, true, by decide, by simp⟩,
    [⟨"AUTHORIZATION: Basic x".toList, 1, true, by decide, by simp⟩, host],
    by decide, by decide, by decide, by simp⟩
  let r' : Request := ⟨"GET".toList, "http://v@h/s?b".toList, "HTTP/1.0".toList,
    ⟨"GET http://v@h/s?b HTTP/1.0".toList, 1, true, by decide, by simp⟩,
    [⟨"AUTHORIZATION: y".toList, 1, true, by decide, by simp⟩, host],
    by decide, by decide, by decide, by simp⟩
  have huserinfo : SameTarget "http://u:p@h/s?a".toList "http://v@h/s?a".toList :=
    @SameTarget.userinfo "http".toList "h/s?a".toList (some "u:p".toList) (some "v".toList)
      (by simp [authorityEnd]) (by simp [authorityEnd]) (by simp [authorityEnd]) (by decide)
  have hquery : SameTarget "http://v@h/s?a".toList "http://v@h/s?b".toList :=
    @SameTarget.query "http://v@h/s".toList (by decide) ['a'] ['b']
  have htarget := huserinfo.trans hquery
  have htext : r.text =
      "GET http://u:p@h/s?a HTTP/1.0\r\nAUTHORIZATION: Basic x\r\nHost: h".toList := by
    decide +kernel
  have htext' : r'.text =
      "GET http://v@h/s?b HTTP/1.0\r\nAUTHORIZATION: y\r\nHost: h".toList := by
    decide +kernel
  rw [← htext, ← htext']
  have hheader : Line.Alike ⟨"AUTHORIZATION: Basic x".toList, 1, true, by decide, by simp⟩
      ⟨"AUTHORIZATION: y".toList, 1, true, by decide, by simp⟩ :=
    ⟨rfl, rfl, .inr (by decide +kernel)⟩
  have halike : r.Alike r' :=
    ⟨rfl, htarget, rfl, by decide +kernel, .cons hheader (.cons ⟨rfl, rfl, .inl rfl⟩ .nil)⟩
  exact (requestForLog_alike halike).1

end Alike

end ZoneMinder.Utils
