import Mathlib.Data.List.Basic

namespace Lib.Literals

/-- A text is cut into its literals and the characters between them. -/
inductive Part
  | char (c : Char)
  | integer (digits : List Char)
  | string (body : List Char)
  | unclosed (body : List Char)
  deriving DecidableEq

inductive Mode
  | outside (word : Bool)
  | sign
  | digits (text : List Char)
  | inside (delimiter : Char) (body : List Char)
  | escaped (delimiter : Char) (body : List Char)
  | closed (delimiter : Char) (body : List Char)

structure Scanner where
  parts : List Part
  mode : Mode

def delimiter (c : Char) : Bool := c = '\'' || c = '"'

theorem not_delimiter_of {p : Char → Bool} (hsingle : p '\'' = false) (hdouble : p '"' = false)
    {c : Char} (h : p c) : delimiter c = false := by
  by_contra hd
  simp only [delimiter, Bool.or_eq_true, decide_eq_true_eq, Bool.not_eq_false] at hd
  rcases hd with rfl | rfl
  · exact absurd h (by simp [hsingle])
  · exact absurd h (by simp [hdouble])

def wordChar (c : Char) : Bool := c.isAlphanum || c = '_' || c = '$'

/-- The part that the text ends in. -/
def Mode.last : Mode → List Part
  | outside _ => []
  | sign => [.char '-']
  | digits text => [.integer text]
  | inside _ body => [.unclosed body]
  | escaped _ body => [.unclosed body]
  | closed _ body => [.string body]

/-- A character that no literal goes on with; digits within a word are part of the word. -/
def start (parts : List Part) (word : Bool) (c : Char) : Scanner :=
  if delimiter c then ⟨parts, .inside c []⟩
  else if c = '-' ∧ word = false then ⟨parts, .sign⟩
  else if c.isDigit ∧ word = false then ⟨parts, .digits [c]⟩
  else ⟨parts ++ [.char c], .outside (wordChar c)⟩

/-- A delimiter within a literal is doubled or stands after a backslash. -/
def Scanner.step (s : Scanner) (c : Char) : Scanner :=
  match s.mode with
  | .outside word => start s.parts word c
  | .sign => if c.isDigit then ⟨s.parts, .digits ['-', c]⟩ else start (s.parts ++ [.char '-']) false c
  | .digits text =>
    if c.isDigit then ⟨s.parts, .digits (text ++ [c])⟩
    else start (s.parts ++ [.integer text]) false c
  | .inside q body =>
    if c = q then ⟨s.parts, .closed q body⟩
    else if c = '\\' then ⟨s.parts, .escaped q body⟩
    else ⟨s.parts, .inside q (body ++ [c])⟩
  | .escaped q body => ⟨s.parts, .inside q (body ++ ['\\', c])⟩
  | .closed q body =>
    if c = q then ⟨s.parts, .inside q (body ++ [q, q])⟩
    else start (s.parts ++ [.string body]) false c

def Scanner.run (s : Scanner) (text : List Char) : Scanner := text.foldl Scanner.step s

def Scanner.finish (s : Scanner) : List Part := s.parts ++ s.mode.last

def begin : Scanner := ⟨[], .outside false⟩

def scan (text : List Char) : List Part := (begin.run text).finish

@[simp]
theorem run_nil (s : Scanner) : s.run [] = s := rfl

@[simp]
theorem run_cons (s : Scanner) (c : Char) (text : List Char) :
    s.run (c :: text) = (s.step c).run text := rfl

theorem run_append (s : Scanner) (text text' : List Char) :
    s.run (text ++ text') = (s.run text).run text' := List.foldl_append

/-- No literal is open. -/
def Scanner.Outside (s : Scanner) : Prop :=
  match s.mode with
  | .inside _ _ => False
  | .escaped _ _ => False
  | .closed q _ => delimiter q
  | _ => True

theorem begin_outside : begin.Outside := trivial

theorem start_outside (parts : List Part) (word : Bool) {c : Char} (h : delimiter c = false) :
    (start parts word c).Outside := by
  rw [start, if_neg (by simp [h])]
  split_ifs <;> trivial

theorem ne_of_closed {parts : List Part} {q : Char} {body : List Char}
    (hs : Scanner.Outside ⟨parts, .closed q body⟩) {c : Char} (h : delimiter c = false) : c ≠ q := by
  intro heq
  rw [heq] at h
  exact absurd hs (by simp [Scanner.Outside, h])

theorem step_outside {s : Scanner} (hs : s.Outside) {c : Char} (h : delimiter c = false) :
    (s.step c).Outside := by
  obtain ⟨parts, mode⟩ := s
  cases mode with
  | outside word => exact start_outside parts word h
  | sign =>
    simp only [Scanner.step]
    split_ifs
    · trivial
    · exact start_outside _ false h
  | digits text =>
    simp only [Scanner.step]
    split_ifs
    · trivial
    · exact start_outside _ false h
  | inside q body => exact hs.elim
  | escaped q body => exact hs.elim
  | closed q body =>
    have hq : c ≠ q := ne_of_closed hs h
    simp only [Scanner.step, if_neg hq]
    exact start_outside _ false h

def Plain (text : List Char) : Prop := ∀ c ∈ text, delimiter c = false

instance : DecidablePred Plain := List.decidableBAll (fun c ↦ delimiter c = false)

theorem plain_cons {c : Char} {text : List Char} :
    Plain (c :: text) ↔ delimiter c = false ∧ Plain text := by simp [Plain]

theorem plain_append {text text' : List Char} :
    Plain (text ++ text') ↔ Plain text ∧ Plain text' := by
  simp only [Plain, List.mem_append, or_imp, forall_and]

theorem run_outside {s : Scanner} (hs : s.Outside) {text : List Char} (h : Plain text) :
    (s.run text).Outside := by
  induction text generalizing s with
  | nil => exact hs
  | cons c text ih =>
    obtain ⟨hc, htext⟩ := plain_cons.mp h
    exact ih (step_outside hs hc) htext

/-- What the database reads after a backslash. -/
def unescaped (c : Char) : List Char :=
  if c = '0' then ['\x00']
  else if c = 'b' then ['\x08']
  else if c = 'n' then ['\n']
  else if c = 'r' then ['\r']
  else if c = 't' then ['\t']
  else if c = 'Z' then ['\x1a']
  else if c = '%' ∨ c = '_' then ['\\', c]
  else [c]

/-- The text that a literal in single quotes stands for. -/
def unescape : List Char → Option (List Char)
  | [] => some []
  | '\\' :: c :: rest => (unescape rest).map (unescaped c ++ ·)
  | ['\\'] => none
  | '\'' :: '\'' :: rest => (unescape rest).map ('\'' :: ·)
  | '\'' :: _ => none
  | c :: rest => (unescape rest).map (c :: ·)

/-- One complete literal for a text. -/
def Literal (value sql : List Char) : Prop :=
  ∃ body, sql = '\'' :: body ++ ['\''] ∧ unescape body = some value

/-- A text without quotes and backslashes stands for itself. -/
theorem unescape_eq_self {text : List Char} (h : ∀ c ∈ text, c ≠ '\'' ∧ c ≠ '\\') :
    unescape text = some text := by
  induction text with
  | nil => rfl
  | cons c rest ih =>
    obtain ⟨⟨hquote, hslash⟩, hrest⟩ := List.forall_mem_cons.mp h
    simp [unescape, hquote, hslash, ih hrest]

theorem literal_of_plain {text : List Char} (h : ∀ c ∈ text, c ≠ '\'' ∧ c ≠ '\\') :
    Literal text ('\'' :: text ++ ['\'']) := ⟨text, rfl, unescape_eq_self h⟩

theorem eq_of_literal_of_plain {value text : List Char} (h : ∀ c ∈ text, c ≠ '\'' ∧ c ≠ '\\')
    (hliteral : Literal value ('\'' :: text ++ ['\''])) : value = text := by
  obtain ⟨body, heq, hbody⟩ := hliteral
  obtain rfl : text = body := by simpa using heq
  rw [unescape_eq_self h] at hbody
  exact (Option.some.inj hbody).symm

/-- What a quoting function makes of a character. -/
def escape (c : Char) : List Char :=
  if c = '\x00' then ['\\', '0']
  else if c = '\n' then ['\\', 'n']
  else if c = '\r' then ['\\', 'r']
  else if c = '\x1a' then ['\\', 'Z']
  else if c = '\\' ∨ c = '\'' ∨ c = '"' then ['\\', c]
  else [c]

def quote (text : List Char) : List Char := '\'' :: text.flatMap escape ++ ['\'']

theorem unescape_escape (c : Char) (rest : List Char) :
    unescape (escape c ++ rest) = (unescape rest).map (c :: ·) := by
  rw [escape]
  split_ifs with hnull hline hreturn hend hchar
  · simp [unescape, unescaped, hnull]
  · simp [unescape, unescaped, hline]
  · simp [unescape, unescaped, hreturn]
  · simp [unescape, unescaped, hend]
  · rcases hchar with hchar | hchar | hchar <;> simp [unescape, unescaped, hchar]
  · rw [not_or, not_or] at hchar
    simp [unescape, hchar]

theorem literal_quote (text : List Char) : Literal text (quote text) := by
  refine ⟨text.flatMap escape, rfl, ?_⟩
  induction text with
  | nil => rfl
  | cons c text ih => rw [List.flatMap_cons, unescape_escape, ih, Option.map_some]

theorem run_body {body value : List Char} (h : unescape body = some value) (parts : List Part)
    (before : List Char) :
    Scanner.run ⟨parts, .inside '\'' before⟩ (body ++ ['\'']) =
      ⟨parts, .closed '\'' (before ++ body)⟩ := by
  induction body using unescape.induct generalizing value before with
  | case1 => simp [Scanner.step]
  | case2 c rest ih =>
    obtain ⟨value', hrest, -⟩ := Option.map_eq_some_iff.mp h
    have hrun := ih hrest (before ++ ['\\', c])
    simpa [Scanner.step] using hrun
  | case3 => cases h
  | case4 rest ih =>
    obtain ⟨value', hrest, -⟩ := Option.map_eq_some_iff.mp h
    have hrun := ih hrest (before ++ ['\'', '\''])
    simpa [Scanner.step] using hrun
  | case5 rest hrest =>
    rw [unescape] at h
    · cases h
    · exact hrest
  | case6 c rest hpair hlast hdouble hquote ih =>
    have hslash : c ≠ '\\' := by
      intro hc
      cases rest with
      | nil => exact hlast hc rfl
      | cons d rest => exact hpair d rest hc rfl
    rw [unescape] at h
    · obtain ⟨value', hrest, -⟩ := Option.map_eq_some_iff.mp h
      have hrun := ih hrest (before ++ [c])
      simpa [Scanner.step, hslash, show c ≠ '\'' from hquote] using hrun
    all_goals assumption

/-- What a literal holds is left out. -/
def Part.shape : Part → Part
  | char c => char c
  | integer _ => integer []
  | string _ => string []
  | unclosed _ => unclosed []

def Mode.shape : Mode → Mode
  | outside word => outside word
  | sign => sign
  | digits _ => digits []
  | inside q _ => inside q []
  | escaped q _ => escaped q []
  | closed q _ => closed q []

def Scanner.shape (s : Scanner) : Scanner := ⟨s.parts.map Part.shape, s.mode.shape⟩

@[simp]
theorem shape_shape (part : Part) : part.shape.shape = part.shape := by cases part <;> rfl

theorem shape_start {parts parts' : List Part} (h : parts.map Part.shape = parts'.map Part.shape)
    (word : Bool) (c : Char) : (start parts word c).shape = (start parts' word c).shape := by
  simp only [start]
  split_ifs <;> simp [Scanner.shape, h]

theorem shape_step (s : Scanner) (c : Char) : (s.step c).shape = (s.shape.step c).shape := by
  obtain ⟨parts, mode⟩ := s
  cases mode with
  | outside word => exact shape_start (by simp [Scanner.shape]) word c
  | sign =>
    show (Scanner.step ⟨parts, .sign⟩ c).shape =
      (Scanner.step ⟨parts.map Part.shape, .sign⟩ c).shape
    simp only [Scanner.step]
    split_ifs
    · simp [Scanner.shape]
    · exact shape_start (by simp) false c
  | digits text =>
    show (Scanner.step ⟨parts, .digits text⟩ c).shape =
      (Scanner.step ⟨parts.map Part.shape, .digits []⟩ c).shape
    simp only [Scanner.step]
    split_ifs
    · simp [Scanner.shape, Mode.shape]
    · exact shape_start (by simp; rfl) false c
  | inside q body =>
    show (Scanner.step ⟨parts, .inside q body⟩ c).shape =
      (Scanner.step ⟨parts.map Part.shape, .inside q []⟩ c).shape
    simp only [Scanner.step]
    split_ifs <;> simp [Scanner.shape, Mode.shape]
  | escaped q body => simp [Scanner.step, Scanner.shape, Mode.shape]
  | closed q body =>
    show (Scanner.step ⟨parts, .closed q body⟩ c).shape =
      (Scanner.step ⟨parts.map Part.shape, .closed q []⟩ c).shape
    simp only [Scanner.step]
    split_ifs
    · simp [Scanner.shape, Mode.shape]
    · exact shape_start (by simp; rfl) false c

theorem shape_run {s s' : Scanner} (h : s.shape = s'.shape) (text : List Char) :
    (s.run text).shape = (s'.run text).shape := by
  induction text generalizing s s' with
  | nil => exact h
  | cons c text ih =>
    refine ih ?_
    rw [shape_step s, shape_step s', h]

theorem shape_last (mode : Mode) :
    mode.last.map Part.shape = mode.shape.last.map Part.shape := by
  cases mode <;> rfl

theorem shape_finish {s s' : Scanner} (h : s.shape = s'.shape) :
    s.finish.map Part.shape = s'.finish.map Part.shape := by
  obtain ⟨hparts, hmode⟩ : s.parts.map Part.shape = s'.parts.map Part.shape ∧
      s.mode.shape = s'.mode.shape := by
    simpa [Scanner.shape] using h
  rw [Scanner.finish, Scanner.finish, List.map_append, List.map_append, hparts,
    shape_last s.mode, shape_last s'.mode, hmode]

/-- A quote opens a literal, or goes on with the one that was just closed. -/
theorem step_quote {s : Scanner} (hs : s.Outside) :
    ∃ parts before, s.step '\'' = ⟨parts, .inside '\'' before⟩ := by
  obtain ⟨parts, mode⟩ := s
  cases mode with
  | outside word => exact ⟨parts, [], by simp [Scanner.step, start, delimiter]⟩
  | sign => exact ⟨parts ++ [.char '-'], [], by simp [Scanner.step, start, delimiter]⟩
  | digits text => exact ⟨parts ++ [.integer text], [], by simp [Scanner.step, start, delimiter]⟩
  | inside q body => exact hs.elim
  | escaped q body => exact hs.elim
  | closed q body =>
    by_cases hq : '\'' = q
    · subst hq
      exact ⟨parts, body ++ ['\'', '\''], by simp [Scanner.step]⟩
    · exact ⟨parts ++ [.string body], [], by simp [Scanner.step, hq, start, delimiter]⟩

theorem run_literal {s : Scanner} (hs : s.Outside) {value sql : List Char}
    (h : Literal value sql) :
    ∃ parts body, s.run sql = ⟨parts, .closed '\'' body⟩ ∧
      ∃ before, s.step '\'' = ⟨parts, .inside '\'' before⟩ := by
  obtain ⟨body, rfl, hbody⟩ := h
  obtain ⟨parts, before, hstep⟩ := step_quote hs
  refine ⟨parts, before ++ body, ?_, before, hstep⟩
  rw [List.cons_append, run_cons, hstep, run_body hbody]

theorem run_literal_outside {s : Scanner} (hs : s.Outside) {value sql : List Char}
    (h : Literal value sql) : (s.run sql).Outside := by
  obtain ⟨parts, body, hrun, -⟩ := run_literal hs h
  rw [hrun]
  show delimiter '\''
  decide

/-- Two literals lead to scanners of one shape. -/
theorem shape_run_literal {s s' : Scanner} (h : s.shape = s'.shape) (hs : s.Outside)
    (hs' : s'.Outside) {value value' sql sql' : List Char} (hsql : Literal value sql)
    (hsql' : Literal value' sql') : (s.run sql).shape = (s'.run sql').shape := by
  obtain ⟨parts, body, hrun, before, hstep⟩ := run_literal hs hsql
  obtain ⟨parts', body', hrun', before', hstep'⟩ := run_literal hs' hsql'
  have hshape : (s.step '\'').shape = (s'.step '\'').shape := by
    rw [shape_step s, shape_step s', h]
  rw [hstep, hstep'] at hshape
  rw [hrun, hrun']
  simpa [Scanner.shape, Mode.shape] using hshape

def Integer (sql : List Char) : Prop :=
  ∃ digits, digits ≠ [] ∧ (∀ c ∈ digits, c.isDigit) ∧ (sql = digits ∨ sql = '-' :: digits)

def integerText : Int → List Char
  | .ofNat n => Nat.toDigits 10 n
  | .negSucc n => '-' :: Nat.toDigits 10 (n + 1)

theorem integer_integerText (n : Int) : Integer (integerText n) := by
  have hdigits (n : Nat) : ∀ c ∈ Nat.toDigits 10 n, c.isDigit := by
    intro c hc
    exact Nat.isDigit_of_mem_toDigits (by decide) (by decide) hc
  cases n with
  | ofNat n => exact ⟨_, Nat.toDigits_ne_nil, hdigits n, .inl rfl⟩
  | negSucc n => exact ⟨_, Nat.toDigits_ne_nil, hdigits (n + 1), .inr rfl⟩

theorem not_delimiter_of_digit {c : Char} (h : c.isDigit) : delimiter c = false :=
  @not_delimiter_of Char.isDigit (by decide) (by decide) c h

theorem ne_sign_of_digit {c : Char} (h : c.isDigit) : c ≠ '-' := by
  intro hc
  rw [hc] at h
  cases h

theorem plain_of_integer {sql : List Char} (h : Integer sql) : Plain sql := by
  obtain ⟨digits, -, hdigits, hsql⟩ := h
  have hplain : Plain digits := fun c hc ↦ not_delimiter_of_digit (hdigits c hc)
  rcases hsql with rfl | rfl
  · exact hplain
  · exact plain_cons.mpr ⟨by decide, hplain⟩

theorem start_digit (parts : List Part) {c : Char} (h : c.isDigit) :
    start parts false c = ⟨parts, .digits [c]⟩ := by
  simp [start, not_delimiter_of_digit h, ne_sign_of_digit h, h]

theorem run_digits {digits : List Char} (h : ∀ c ∈ digits, c.isDigit) (parts : List Part)
    (text : List Char) :
    Scanner.run ⟨parts, .digits text⟩ digits = ⟨parts, .digits (text ++ digits)⟩ := by
  induction digits generalizing text with
  | nil => simp
  | cons c digits ih =>
    obtain ⟨hc, hdigits⟩ := List.forall_mem_cons.mp h
    rw [run_cons]
    simp only [Scanner.step, if_pos hc]
    rw [ih hdigits, List.append_assoc, List.singleton_append]

theorem run_integer {sql : List Char} (h : Integer sql) (parts : List Part) :
    Scanner.run ⟨parts, .outside false⟩ sql = ⟨parts, .digits sql⟩ := by
  obtain ⟨digits, hne, hdigits, hsql⟩ := h
  cases digits with
  | nil => exact absurd rfl hne
  | cons c digits =>
    obtain ⟨hc, hdigits⟩ := List.forall_mem_cons.mp hdigits
    rcases hsql with rfl | rfl
    · rw [run_cons]
      simp only [Scanner.step, start_digit parts hc]
      exact run_digits hdigits parts [c]
    · have hsign : Scanner.run ⟨parts, .outside false⟩ ['-', c] = ⟨parts, .digits ['-', c]⟩ := by
        simp [Scanner.step, start, delimiter, hc]
      have hrun := run_append ⟨parts, .outside false⟩ ['-', c] digits
      rw [hsign, run_digits hdigits] at hrun
      exact hrun

theorem not_digit_of_not_word {c : Char} (h : wordChar c = false) : c.isDigit = false := by
  by_contra hd
  rw [Bool.not_eq_false] at hd
  simp [wordChar, Char.isAlphanum, hd] at h

theorem start_separator (parts : List Part) (word : Bool) {c : Char}
    (hdelimiter : delimiter c = false) (hword : wordChar c = false) (hsign : c ≠ '-') :
    (start parts word c).mode = .outside false := by
  have hdigit : c.isDigit = false := not_digit_of_not_word hword
  simp [start, hdelimiter, hsign, hdigit, hword]

/-- After a character that no word, literal or sign goes on with. -/
theorem step_separator {s : Scanner} (hs : s.Outside) {c : Char}
    (hdelimiter : delimiter c = false) (hword : wordChar c = false) (hsign : c ≠ '-') :
    (s.step c).mode = .outside false := by
  have hdigit : c.isDigit = false := not_digit_of_not_word hword
  obtain ⟨parts, mode⟩ := s
  cases mode with
  | outside word => exact start_separator parts word hdelimiter hword hsign
  | sign =>
    simp only [Scanner.step, hdigit, Bool.false_eq_true, if_false]
    exact start_separator _ false hdelimiter hword hsign
  | digits text =>
    simp only [Scanner.step, hdigit, Bool.false_eq_true, if_false]
    exact start_separator _ false hdelimiter hword hsign
  | inside q body => exact hs.elim
  | escaped q body => exact hs.elim
  | closed q body =>
    have hq : c ≠ q := ne_of_closed hs hdelimiter
    simp only [Scanner.step, if_neg hq]
    exact start_separator _ false hdelimiter hword hsign

def Part.text : Part → List Char
  | char c => [c]
  | integer digits => digits
  | string _ => []
  | unclosed _ => []

/-- What stands outside of the literals in quotes. -/
def Scanner.text (s : Scanner) : List Char := s.finish.flatMap Part.text

theorem text_mk (parts : List Part) (mode : Mode) :
    Scanner.text ⟨parts, mode⟩ = parts.flatMap Part.text ++ mode.last.flatMap Part.text :=
  List.flatMap_append

theorem text_start (parts : List Part) (word : Bool) {c : Char} (h : delimiter c = false) :
    (start parts word c).text = parts.flatMap Part.text ++ [c] := by
  rw [start, if_neg (by simp [h])]
  split_ifs with hsign hdigit
  · rw [hsign.1]
    simp [text_mk, Mode.last, Part.text]
  · simp [text_mk, Mode.last, Part.text]
  · simp [text_mk, Mode.last, Part.text]

theorem text_step {s : Scanner} (hs : s.Outside) {c : Char} (h : delimiter c = false) :
    (s.step c).text = s.text ++ [c] := by
  obtain ⟨parts, mode⟩ := s
  cases mode with
  | outside word => simp [Scanner.step, text_start parts word h, text_mk, Mode.last]
  | sign =>
    simp only [Scanner.step]
    split_ifs
    · simp [text_mk, Mode.last, Part.text]
    · simp [text_start _ false h, text_mk, Mode.last]
  | digits text =>
    simp only [Scanner.step]
    split_ifs
    · simp [text_mk, Mode.last, Part.text]
    · simp [text_start _ false h, text_mk, Mode.last]
  | inside q body => exact hs.elim
  | escaped q body => exact hs.elim
  | closed q body =>
    have hq : c ≠ q := ne_of_closed hs h
    simp [Scanner.step, hq, text_start _ false h, text_mk, Mode.last]

theorem text_run {s : Scanner} (hs : s.Outside) {text : List Char} (h : Plain text) :
    (s.run text).text = s.text ++ text := by
  induction text generalizing s with
  | nil => simp
  | cons c text ih =>
    obtain ⟨hc, htext⟩ := plain_cons.mp h
    rw [run_cons, ih (step_outside hs hc) htext, text_step hs hc, List.append_assoc,
      List.singleton_append]

theorem text_step_quote {s : Scanner} (hs : s.Outside) : (s.step '\'').text = s.text := by
  obtain ⟨parts, mode⟩ := s
  cases mode with
  | outside word => simp [Scanner.step, start, delimiter, text_mk, Mode.last, Part.text]
  | sign => simp [Scanner.step, start, delimiter, text_mk, Mode.last, Part.text]
  | digits text => simp [Scanner.step, start, delimiter, text_mk, Mode.last, Part.text]
  | inside q body => exact hs.elim
  | escaped q body => exact hs.elim
  | closed q body =>
    simp only [Scanner.step]
    split_ifs
    · simp [text_mk, Mode.last, Part.text]
    · simp [start, delimiter, text_mk, Mode.last, Part.text]

theorem text_run_literal {s : Scanner} (hs : s.Outside) {value sql : List Char}
    (h : Literal value sql) : (s.run sql).text = s.text := by
  obtain ⟨parts, body, hrun, before, hstep⟩ := run_literal hs h
  rw [hrun, ← text_step_quote hs, hstep]
  simp [text_mk, Mode.last, Part.text]

end Lib.Literals
