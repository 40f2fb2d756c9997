import ZoneMinder.Filter.Sql
import ZoneMinder.Lib.Fields

namespace ZoneMinder.Filter

open Perl

/-- A number as Perl prints it, or as the script's own pattern reads it. -/
def Number (digit : Char → Bool) (text : List Char) : Prop :=
  ∃ sign ∈ [[], ['-']], ∃ unsigned, text = sign ++ unsigned ∧
    (unsigned ∈ [['I', 'n', 'f'], ['N', 'a', 'N']] ∨
      ∃ whole fraction exponent, unsigned = whole ++ fraction ++ exponent ∧
        whole ≠ [] ∧ (∀ c ∈ whole, digit c) ∧
        (fraction = [] ∨ ∃ ds, fraction = '.' :: ds ∧ ds ≠ [] ∧ ∀ c ∈ ds, digit c) ∧
        (exponent = [] ∨ ∃ s ∈ ['+', '-'], ∃ ds, exponent = 'e' :: s :: ds ∧ ∀ c ∈ ds, digit c))

def keywords : List (List Char) :=
  [['N', 'U', 'L', 'L'], ['N', 'O', 'W', '(', ')'], ['C', 'U', 'R', 'D', 'A', 'T', 'E', '(', ')']]

/-- A number, a keyword, a listed operator, a conjunction, a run of brackets, an identifier; a
newline at its end is no part of it. -/
def Allowed (digit : Char → Bool) (text : String) : Prop :=
  let part := chomp text.toList
  Number digit part ∨ part.map Char.toUpper ∈ keywords ∨ text ∈ validOps ∨
    part ∈ [['a', 'n', 'd'], ['o', 'r']] ∨ (∀ c ∈ part, c = '(') ∨ (∀ c ∈ part, c = ')') ∨
    ∀ c ∈ part, attrChar c

def rangeTexts (column : String) : List String :=
  [column ++ " IS NULL", column ++ " IS NOT NULL", column ++ " >= ", column ++ " < ",
    " AND " ++ column ++ " < ", "(" ++ column ++ " < ", " OR " ++ column ++ " >= ",
    "to_days(" ++ column ++ ") "]

/-- What the script itself writes: around a term's parts, for its left side, its values, its
operator, and for the rest of the statement. -/
def fixedTexts : List String :=
  [" ", "(", ")", ",", "\n", " )", " OR ", " AND ", "0", "NULL"] ++
  ["T.Id", "M.", "Id", "M.ServerId",
    "(SELECT Storage.ServerId FROM Storage WHERE Storage.Id=E.StorageId)", " /* ZM_SERVER_ID */",
    "NOW()", "extract( hour_second from NOW())", "to_days(NOW())", "weekday(NOW())",
    "E.StartDateTime", "extract( hour_second from E.StartDateTime )",
    "weekday( E.StartDateTime )", "E.EndDateTime", "extract( hour_second from E.EndDateTime )",
    "weekday( E.EndDateTime )", "TRUE /* ExistsInFileSystem */", "zmDiskPercent", "zmDiskBlocks",
    "zmSystemLoad", "E."] ++
  ["(SELECT * FROM Stats WHERE EventId=E.Id AND Score > 0 AND ZoneId=", "to_days(", "to_days( ",
    "extract( hour_second from ", " + INTERVAL 1 DAY"] ++
  rangeTexts "E.StartDateTime" ++ rangeTexts "E.EndDateTime" ++
  ["(E.StartDateTime >= DATE_SUB(",
    ", INTERVAL 1 DAY) AND (E.EndDateTime IS NULL OR E.EndDateTime ",
    ") AND " ++ effectiveEndSql ++ " ",
    "EXISTS (SELECT NULL FROM `Events_Tags` AS ET WHERE ET.EventId = E.Id)",
    "NOT EXISTS (SELECT NULL FROM `Events_Tags` AS ET WHERE ET.EventId = E.Id)",
    " REGEXP ", " NOT REGEXP ", " % 2 = 1", " % 2 = 0", " IS ", " IS NOT ", " = ", " != ",
    " EXISTS ", " IN (", " NOT IN (", " LIKE ", " NOT LIKE "] ++
  [" SELECT ", "E.*, unix_timestamp(E.StartDateTime) AS Time", monitorField, tagsField, " FROM ",
    "Events AS E", monitorJoin, tagsJoin, " WHERE ( ", " AND ( ", "E.Archived = 0",
    "E.Archived = 1", "E.Videoed = 0", "E.Uploaded = 0", "E.Emailed = 0", "E.Messaged = 0",
    "E.Executed = 0", " or ",
    " AND NOT EXISTS (SELECT 1 FROM Events_Lock AS EL WHERE EL.EventId=E.Id " ++
      "AND EL.ExpiresAt>NOW())",
    " ORDER BY ", " ASC", " DESC", " LIMIT 0,"] ++ sortColumns.map Prod.snd

variable (script : Script)

/-- What comes from the stored query is a literal or one of the parts that are allowed, and what
does not is written in the script. -/
def Piece.Safe : Piece → Prop
  | code text => text ∈ fixedTexts
  | config _ => True
  | user text => Allowed (digit script.toRuntime) text
  | quoted _ => True
  | date text => '\'' ∉ text.toList ∧ '\\' ∉ text.toList

def AllSafe (pieces : List Piece) : Prop := ∀ piece ∈ pieces, piece.Safe script

def dateChar (c : Char) : Bool := c.isDigit || c ∈ ['-', ':', ' ']

/-- `int` gives a number, and `strftime` the digits of a date and what stands between them. -/
structure Script.Documented (script : Script) : Prop where
  int : ∀ text, Number (digit script.toRuntime) (script.int text).toList
  dateTime : ∀ text, ∀ date ∈ script.dateTimeToSQL text, ∀ c ∈ date.toList, dateChar c
  nextDay : ∀ day, ∀ c ∈ (script.nextDay day).toList, dateChar c

section Allowed

variable {digit : Char → Bool} {text : String}

theorem mem_of_mem_chomp {c : Char} {text : List Char} (h : c ∈ chomp text) : c ∈ text := by
  rw [chomp] at h
  split_ifs at h
  · exact (List.dropLast_sublist text).subset h
  · exact h

theorem mem_chomp {c : Char} {text : List Char} (h : c ∈ text) (hc : c ≠ '\n') :
    c ∈ chomp text := by
  rw [chomp]
  split_ifs with hlast
  · obtain ⟨init, rfl⟩ := List.getLast?_eq_some_iff.mp hlast
    rw [List.dropLast_concat]
    rw [List.mem_append, List.mem_singleton] at h
    exact h.resolve_right hc
  · exact h

theorem chomp_eq_self {text : List Char} (h : '\n' ∉ text) : chomp text = text := by
  rw [chomp, if_neg]
  intro hlast
  exact h (List.mem_of_getLast? hlast)

theorem allowed_identifier (h : ∀ c ∈ text.toList, attrChar c) : Allowed digit text := by
  refine .inr (.inr (.inr (.inr (.inr (.inr ?_)))))
  intro c hc
  exact h c (mem_of_mem_chomp hc)

theorem allowed_op (h : text ∈ validOps) : Allowed digit text := .inr (.inr (.inl h))

theorem allowed_cnj (h : chomp text.toList ∈ [['a', 'n', 'd'], ['o', 'r']]) :
    Allowed digit text := .inr (.inr (.inr (.inl h)))

theorem allowed_open (n : ℕ) : Allowed digit (String.ofList (List.replicate n '(')) := by
  refine .inr (.inr (.inr (.inr (.inl ?_))))
  intro c hc
  have hmem := mem_of_mem_chomp hc
  rw [String.toList_ofList] at hmem
  exact List.eq_of_mem_replicate hmem

theorem allowed_close (n : ℕ) : Allowed digit (String.ofList (List.replicate n ')')) := by
  refine .inr (.inr (.inr (.inr (.inr (.inl ?_)))))
  intro c hc
  have hmem := mem_of_mem_chomp hc
  rw [String.toList_ofList] at hmem
  exact List.eq_of_mem_replicate hmem

theorem Number.mem {text : List Char} (h : Number digit text) {c : Char} (hc : c ∈ text) :
    digit c ∨ c ∈ ['-', 'I', 'n', 'f', 'N', 'a', '.', 'e', '+'] := by
  obtain ⟨sign, hsign, unsigned, rfl, hunsigned⟩ := h
  rw [List.mem_append] at hc
  rcases hc with hc | hc
  · rcases List.mem_pair.mp hsign with rfl | rfl
    · cases hc
    · rw [List.mem_singleton] at hc
      simp [hc]
  rcases hunsigned with hword | ⟨whole, fraction, exponent, rfl, -, hwhole, hfraction, hexponent⟩
  · rcases List.mem_pair.mp hword with rfl | rfl
    · simp only [List.mem_cons, List.not_mem_nil, or_false] at hc ⊢
      tauto
    · simp only [List.mem_cons, List.not_mem_nil, or_false] at hc ⊢
      tauto
  · rw [List.mem_append, List.mem_append] at hc
    rcases hc with (hc | hc) | hc
    · exact .inl (hwhole c hc)
    · rcases hfraction with rfl | ⟨ds, rfl, -, hds⟩
      · cases hc
      · rcases List.mem_cons.mp hc with rfl | hc
        · simp
        · exact .inl (hds c hc)
    · rcases hexponent with rfl | ⟨s, hs, ds, rfl, hds⟩
      · cases hc
      · rcases List.mem_cons.mp hc with rfl | hc
        · simp
        · rcases List.mem_cons.mp hc with rfl | hc
          · rcases List.mem_pair.mp hs with rfl | rfl <;> simp
          · exact .inl (hds c hc)

theorem digit_of_ascii {perl : Runtime} {c : Char} (h : c.toNat < 128) :
    Perl.digit perl c = c.isDigit := by
  rw [Perl.digit, if_pos h]

theorem allowed_of_number {perl : Runtime} (h : Number (Perl.digit perl) text.toList) :
    Allowed (Perl.digit perl) text := by
  have hline : '\n' ∉ text.toList := by
    intro hc
    rcases h.mem hc with hdigit | hchar
    · rw [digit_of_ascii (by decide)] at hdigit
      revert hdigit
      decide
    · revert hchar
      decide
  exact .inl (by rwa [chomp_eq_self hline])

theorem plainNumber_number {perl : Runtime} {text : List Char} (h : plainNumber perl text) :
    Number (Perl.digit perl) (chomp text) := by
  have hunsigned (unsigned : List Char)
      (hwhole : (unsigned.takeWhile (Perl.digit perl)).isEmpty = false)
      (hrest : (unsigned.dropWhile (Perl.digit perl)).isEmpty ∨
        ((unsigned.dropWhile (Perl.digit perl)).head? = some '.' ∧
          (unsigned.dropWhile (Perl.digit perl)).tail.isEmpty = false ∧
          (unsigned.dropWhile (Perl.digit perl)).tail.all (Perl.digit perl))) :
      ∃ whole fraction exponent, unsigned = whole ++ fraction ++ exponent ∧
        whole ≠ [] ∧ (∀ c ∈ whole, Perl.digit perl c) ∧
        (fraction = [] ∨ ∃ ds, fraction = '.' :: ds ∧ ds ≠ [] ∧ ∀ c ∈ ds, Perl.digit perl c) ∧
        (exponent = [] ∨
          ∃ s ∈ ['+', '-'], ∃ ds, exponent = 'e' :: s :: ds ∧ ∀ c ∈ ds, Perl.digit perl c) := by
    refine ⟨unsigned.takeWhile (Perl.digit perl), unsigned.dropWhile (Perl.digit perl), [], ?_, ?_,
      ?_, ?_, .inl rfl⟩
    · rw [List.append_nil, List.takeWhile_append_dropWhile]
    · simpa using hwhole
    · intro c hc
      exact List.mem_takeWhile_imp hc
    · rcases hrest with hrest | ⟨hhead, htail, hall⟩
      · exact .inl (List.isEmpty_iff.mp hrest)
      · refine .inr ⟨(unsigned.dropWhile (Perl.digit perl)).tail, ?_, ?_, ?_⟩
        · exact (List.head?_eq_some_iff.mp hhead).elim fun ds hds ↦ by rw [hds]; rfl
        · simpa using htail
        · simpa using hall
  simp only [plainNumber, Bool.and_eq_true, Bool.or_eq_true, Bool.not_eq_true',
    decide_eq_true_eq, and_assoc] at h
  by_cases hsign : (chomp text).head? = some '-'
  · rw [if_pos hsign] at h
    obtain ⟨unsigned, hchomp⟩ := List.head?_eq_some_iff.mp hsign
    rw [hchomp, List.tail_cons] at h
    exact ⟨['-'], by simp, unsigned, hchomp, .inr (hunsigned unsigned h.1 h.2)⟩
  · rw [if_neg hsign] at h
    exact ⟨[], by simp, chomp text, rfl, .inr (hunsigned (chomp text) h.1 h.2)⟩

theorem allowed_null (h : isNull text) : Allowed digit text := by
  have hmap : text.toList.map Char.toUpper = ['N', 'U', 'L', 'L'] := by simpa [isNull] using h
  have hline : '\n' ∉ text.toList := by
    intro hc
    have hmem := List.mem_map_of_mem (f := Char.toUpper) hc
    rw [hmap] at hmem
    revert hmem
    decide
  refine .inr (.inl ?_)
  rw [chomp_eq_self hline, hmap]
  simp [keywords]

theorem allowed_now (h : text = "CURDATE()" ∨ text = "NOW()") : Allowed digit text := by
  rcases h with rfl | rfl
  · exact .inr (.inl (by decide))
  · exact .inr (.inl (by decide))

/-- Nothing that is allowed has a comma in it. -/
theorem Allowed.comma_not_mem {perl : Runtime} (h : Allowed (Perl.digit perl) text) :
    ',' ∉ text.toList := by
  intro hc
  have hpart := mem_chomp hc (by decide)
  rcases h with h | h | h | h | h | h | h
  · rcases h.mem hpart with hdigit | hchar
    · rw [digit_of_ascii (by decide)] at hdigit
      revert hdigit
      decide
    · revert hchar
      decide
  · have hmem := List.mem_map_of_mem (f := Char.toUpper) hpart
    simp only [keywords, List.mem_cons, List.not_mem_nil, or_false] at h
    rcases h with h | h | h <;> rw [h] at hmem <;> revert hmem <;> decide
  · revert hc
    simp only [validOps, List.mem_cons, List.not_mem_nil, or_false] at h
    rcases h with rfl | rfl | rfl | rfl | rfl | rfl | rfl | rfl | rfl | rfl | rfl | rfl | rfl |
      rfl | rfl | rfl | rfl <;> decide
  · rcases List.mem_pair.mp h with h | h <;> rw [h] at hpart <;> revert hpart <;> decide
  · exact absurd (h _ hpart) (by decide)
  · exact absurd (h _ hpart) (by decide)
  · exact absurd (h _ hpart) (by decide)

end Allowed

section AllSafe

variable {script} {pieces pieces' : List Piece} {piece : Piece}

@[simp]
theorem allSafe_nil : AllSafe script [] := by simp [AllSafe]

@[simp]
theorem allSafe_cons :
    AllSafe script (piece :: pieces) ↔ piece.Safe script ∧ AllSafe script pieces := by
  simp [AllSafe]

@[simp]
theorem allSafe_append :
    AllSafe script (pieces ++ pieces') ↔ AllSafe script pieces ∧ AllSafe script pieces' := by
  simp only [AllSafe, List.mem_append, or_imp, forall_and]

@[simp]
theorem safe_code {text : String} (h : text ∈ fixedTexts) : (Piece.code text).Safe script := h

@[simp]
theorem safe_config (text : String) : (Piece.config text).Safe script := trivial

@[simp]
theorem safe_quoted (text : String) : (Piece.quoted text).Safe script := trivial

@[simp]
theorem safe_user (text : String) :
    (Piece.user text).Safe script ↔ Allowed (digit script.toRuntime) text := Iff.rfl

theorem allSafe_flatten {parts : List (List Piece)} :
    AllSafe script parts.flatten ↔ ∀ part ∈ parts, AllSafe script part := by
  simp only [AllSafe, List.mem_flatten]
  constructor
  · intro h part hpart piece hpiece
    exact h piece ⟨part, hpart, hpiece⟩
  · intro h piece hpiece
    obtain ⟨part, hpart, hmem⟩ := hpiece
    exact h part hpart piece hmem

theorem allSafe_ite {c : Prop} [Decidable c] (h : AllSafe script pieces)
    (h' : AllSafe script pieces') : AllSafe script (if c then pieces else pieces') := by
  by_cases hc : c
  · rwa [if_pos hc]
  · rwa [if_neg hc]

theorem allSafe_joined {parts : List (List Piece)} {separator : String}
    (hseparator : separator ∈ fixedTexts) (h : ∀ part ∈ parts, AllSafe script part) :
    AllSafe script (joined separator parts) := by
  rw [joined, allSafe_flatten]
  intro part hpart
  rcases Lib.mem_intersperse hpart with hpart | hpart
  · exact h part hpart
  · simp [hpart, safe_code hseparator]

theorem safe_date {text : String} (h : ∀ c ∈ text.toList, dateChar c) :
    (Piece.date text).Safe script := by
  constructor
  · intro hc
    exact absurd (h _ hc) (by decide)
  · intro hc
    exact absurd (h _ hc) (by decide)

theorem attrChar_of_cleanAttr {attr : String} (h : cleanAttr attr) :
    ∀ c ∈ attr.toList, attrChar c := by
  simpa [cleanAttr] using h

theorem attrSql_safe {attr : String} (h : cleanAttr attr) (op : String) (tag : Bool) :
    AllSafe script (attrSql script attr op tag) := by
  have hattr : Allowed (digit script.toRuntime) attr :=
    allowed_identifier (attrChar_of_cleanAttr h)
  have hcolumn : Allowed (digit script.toRuntime) (monitorColumn attr) := by
    refine allowed_identifier ?_
    intro c hc
    rw [monitorColumn, String.toList_ofList] at hc
    exact attrChar_of_cleanAttr h c (List.mem_of_mem_drop hc)
  have hmonitor : AllSafe script [.code "M.",
      if isTrue (monitorColumn attr) then .user (monitorColumn attr) else .code "Id"] := by
    by_cases hc : isTrue (monitorColumn attr) <;> simp (disch := decide) [hc, hcolumn]
  have hserver : AllSafe script [ownServerId script, .code " /* ZM_SERVER_ID */"] := by
    cases hid : script.serverId <;> simp (disch := decide) [ownServerId, hid]
  have helse : AllSafe script [.code "E.", .user attr] := by simp (disch := decide) [hattr]
  rw [attrSql]
  repeat' apply allSafe_ite
  all_goals first | assumption | simp (disch := decide)

theorem forall_mem_ite {α : Type*} {c : Prop} [Decidable c] {a b : Option α} {P : α → Prop}
    (h : c → ∀ x ∈ a, P x) (h' : ¬c → ∀ x ∈ b, P x) : ∀ x ∈ (if c then a else b), P x := by
  by_cases hc : c
  · rw [if_pos hc]
    exact h hc
  · rw [if_neg hc]
    exact h' hc

theorem forall_mem_some {α : Type*} {a : α} {P : α → Prop} (h : P a) : ∀ x ∈ some a, P x := by
  intro x hx
  rw [Option.mem_some] at hx
  exact hx ▸ h

theorem forall_mem_parsedDate {text : String} {f : String → List Piece}
    (h : ∀ date ∈ script.dateTimeToSQL text, AllSafe script (f date)) :
    ∀ value ∈ (parsedDate script text).map f, AllSafe script value := by
  intro value hvalue
  obtain ⟨date, hdate, rfl⟩ := Option.map_eq_some_iff.mp hvalue
  exact h date (Option.eq_some_of_filter_eq_some hdate)

/-- Whatever the value holds, it becomes a literal or a keyword. -/
theorem valueSql_safe (hscript : script.Documented) (attr op text : String)
    (value : List Piece) : ∀ value' ∈ valueSql script attr op value text,
      AllSafe script value' := by
  have hnull (h : isNull text) : AllSafe script [.user text] := by simp [allowed_null h]
  have hint (text : String) : Allowed (digit script.toRuntime) (script.int text) :=
    allowed_of_number (hscript.int text)
  rw [valueSql]
  refine forall_mem_ite (fun _ ↦ ?_) fun _ ↦ forall_mem_ite (fun _ ↦ ?_) fun _ ↦
    forall_mem_ite (fun _ ↦ ?_) fun _ ↦ forall_mem_ite (fun _ ↦ ?_) fun _ ↦
    forall_mem_ite (fun _ ↦ ?_) fun _ ↦ forall_mem_ite (fun _ ↦ ?_) fun _ ↦
    forall_mem_ite (fun _ ↦ ?_) fun _ ↦ forall_mem_ite (fun _ ↦ ?_) fun _ ↦
    forall_mem_ite (fun _ ↦ ?_) fun _ ↦ forall_mem_ite (fun h ↦ ?_) fun _ ↦ ?_
  · exact forall_mem_some (by simp (disch := decide) [hint])
  · exact forall_mem_some (by simp)
  · refine forall_mem_ite (fun _ ↦ ?_) fun _ ↦ forall_mem_ite (fun h ↦ ?_) fun _ ↦ ?_
    · refine forall_mem_some ?_
      cases script.serverId <;> simp (disch := decide)
    · exact forall_mem_some (hnull h)
    · exact forall_mem_some (by simp)
  · refine forall_mem_some ?_
    by_cases hempty : text = "" <;> simp (disch := decide) [hempty, hint]
  · exact forall_mem_ite (fun _ ↦ forall_mem_some (by simp)) fun _ ↦ forall_mem_some (by simp)
  · refine forall_mem_ite (fun h ↦ forall_mem_some (hnull h)) fun _ ↦ forall_mem_parsedDate ?_
    intro date hdate
    simpa using safe_date (hscript.dateTime text date hdate)
  · refine forall_mem_ite (fun h ↦ forall_mem_some (hnull h)) fun _ ↦
      forall_mem_ite (fun h ↦ forall_mem_some ?_) fun _ ↦ forall_mem_parsedDate ?_
    · exact allSafe_ite (by simp (disch := decide) [allowed_now h]) (by simp (disch := decide) [allowed_now h])
    · intro date _
      exact allSafe_ite (by simp) (by simp (disch := decide))
  · refine forall_mem_ite (fun h ↦ forall_mem_some (hnull h)) fun _ ↦ forall_mem_parsedDate ?_
    intro date _
    simp (disch := decide)
  · exact forall_mem_some (by simp (disch := decide))
  · refine forall_mem_some ?_
    have hnumber : Allowed (digit script.toRuntime) text := .inl (plainNumber_number h)
    simp [hnumber]
  · exact forall_mem_some (by simp)

theorem valuesSql_safe (hscript : script.Documented) {attr op : String} {texts : List String}
    {value last : List Piece} {values : List (List Piece)}
    (h : valuesSql script attr op value texts = some (last, values)) :
    (∀ v ∈ values, AllSafe script v) ∧
      if texts = [] then last = value ∧ values = [] else AllSafe script last := by
  induction texts generalizing value values with
  | nil =>
    obtain ⟨rfl, rfl⟩ : value = last ∧ [] = values := by simpa [valuesSql] using h
    simp
  | cons text texts ih =>
    obtain ⟨value', hvalue', h⟩ := Option.bind_eq_some_iff.mp h
    obtain ⟨⟨last', values'⟩, hrest, h⟩ := Option.bind_eq_some_iff.mp h
    obtain ⟨rfl, rfl⟩ : last' = last ∧ value' :: values' = values := by simpa using h
    have hsafe := valueSql_safe hscript attr op text value value' hvalue'
    obtain ⟨hvalues, hlast⟩ := ih hrest
    refine ⟨?_, ?_⟩
    · intro v hv
      rcases List.mem_cons.mp hv with rfl | hv
      · exact hsafe
      · exact hvalues v hv
    · rw [if_neg (List.cons_ne_nil text texts)]
      by_cases htexts : texts = []
      · rw [if_pos htexts] at hlast
        rw [hlast.1]
        exact hsafe
      · rwa [if_neg htexts] at hlast

theorem dayOf_digit {date day : String} (h : dayOf script date = some day) {c : Char}
    (hc : c ∈ day.toList) : c = '-' ∨ digit script.toRuntime c := by
  rw [dayOf] at h
  simp only [Option.ite_none_right_eq_some, Option.some.injEq] at h
  obtain ⟨⟨-, -, -, -, hdigits⟩, rfl⟩ := h
  rw [String.toList_ofList] at hc
  by_cases hdash : c = '-'
  · exact .inl hdash
  · exact .inr (List.all_eq_true.mp hdigits c (List.mem_filter.mpr ⟨hc, by simpa using hdash⟩))

theorem safe_dayStart {date day : String} (h : dayOf script date = some day) :
    (Piece.date (day ++ " 00:00:00")).Safe script := by
  have hnot (c : Char) (hdash : c ≠ '-') (hascii : c.toNat < 128) (hdigit : c.isDigit = false)
      (htime : c ∉ " 00:00:00".toList) : c ∉ (day ++ " 00:00:00").toList := by
    intro hc
    rw [String.toList_append, List.mem_append] at hc
    rcases hc with hc | hc
    · rcases dayOf_digit h hc with hc | hc
      · exact hdash hc
      · rw [digit_of_ascii hascii, hdigit] at hc
        cases hc
    · exact htime hc
  exact ⟨hnot _ (by decide) (by decide) (by decide) (by decide),
    hnot _ (by decide) (by decide) (by decide) (by decide)⟩

theorem dateBounds_safe (hscript : script.Documented) {value : List Piece}
    (h : AllSafe script value) :
    AllSafe script (dateBounds script value).1 ∧ AllSafe script (dateBounds script value).2 := by
  unfold dateBounds
  split
  next keyword =>
    split_ifs
    · exact ⟨h, by simpa (disch := decide) using h⟩
    · exact ⟨h, h⟩
  next date =>
    split
    next day hday =>
      exact ⟨by simpa using safe_dayStart hday, by simpa using safe_date (hscript.nextDay day)⟩
    · exact ⟨h, h⟩
  · exact ⟨h, h⟩

theorem dateColumn_texts {attr column : String} (h : dateColumn attr = some column) :
    rangeTexts column ⊆ fixedTexts := by
  rw [dateColumn] at h
  split_ifs at h
  · obtain rfl := Option.some.inj h
    decide
  · obtain rfl := Option.some.inj h
    decide

theorem safe_range (script : Script) {column : String} (h : rangeTexts column ⊆ fixedTexts) :
    ∀ text ∈ rangeTexts column, (Piece.code text).Safe script :=
  fun _ htext ↦ h htext

theorem within_safe (hscript : script.Documented) {column : String}
    (hcolumn : rangeTexts column ⊆ fixedTexts) {value : List Piece} (h : AllSafe script value) : AllSafe script (within script column value) := by
  obtain ⟨hlow, hhigh⟩ := dateBounds_safe hscript h
  have htexts := safe_range script hcolumn
  simp only [rangeTexts, List.forall_mem_cons] at htexts
  simp [within, hlow, hhigh, htexts]

theorem outside_safe (hscript : script.Documented) {column : String}
    (hcolumn : rangeTexts column ⊆ fixedTexts) {value : List Piece} (h : AllSafe script value) : AllSafe script (outside script column value) := by
  obtain ⟨hlow, hhigh⟩ := dateBounds_safe hscript h
  have htexts := safe_range script hcolumn
  simp only [rangeTexts, List.forall_mem_cons] at htexts
  simp (disch := decide) [outside, hlow, hhigh, htexts]

theorem dateRangeSql_safe (hscript : script.Documented) {column : String}
    (hcolumn : rangeTexts column ⊆ fixedTexts) {op : String}
    (hop : Allowed (digit script.toRuntime) op) {values : List (List Piece)}
    (h : ∀ v ∈ values, AllSafe script v) :
    AllSafe script (dateRangeSql script column op values) := by
  have hvalue : AllSafe script (values.headD []) := by
    cases values with
    | nil => simp
    | cons v values => exact h v List.mem_cons_self
  obtain ⟨hlow, hhigh⟩ := dateBounds_safe hscript hvalue
  have hwithin := within_safe hscript hcolumn hvalue
  have houtside := outside_safe hscript hcolumn hvalue
  have hors : AllSafe script (joined " OR " (values.map (fun v ↦
      [.code "("] ++ within script column v ++ [.code ")"]))) := by
    refine allSafe_joined (by decide) ?_
    intro part hpart
    obtain ⟨v, hv, rfl⟩ := List.mem_map.mp hpart
    simpa (disch := decide) using within_safe hscript hcolumn (h v hv)
  have hands : AllSafe script (joined " AND " (values.map (outside script column))) := by
    refine allSafe_joined (by decide) ?_
    intro part hpart
    obtain ⟨v, hv, rfl⟩ := List.mem_map.mp hpart
    exact outside_safe hscript hcolumn (h v hv)
  have htexts := safe_range script hcolumn
  simp only [rangeTexts, List.forall_mem_cons] at htexts
  unfold dateRangeSql
  dsimp only
  repeat' apply allSafe_ite
  all_goals simp (disch := decide) only [allSafe_append, allSafe_cons, allSafe_nil, safe_code,
    safe_user, htexts, hwithin, houtside, hors, hands, hlow, hhigh, hvalue, hop, and_self]

theorem stillRunning_safe {op : String} (hop : Allowed (digit script.toRuntime) op)
    {value : List Piece} (h : AllSafe script value) :
    AllSafe script (stillRunning op value) := by
  simp (disch := decide +kernel) [stillRunning, h, hop]

theorem tagged_safe (negated : Bool) : AllSafe script (tagged negated) := by
  rw [tagged, allSafe_cons]
  exact ⟨safe_code (by cases negated <;> decide), allSafe_nil⟩

theorem joined_stillRunning_safe {op : String} (hop : Allowed (digit script.toRuntime) op)
    {values : List (List Piece)} (h : ∀ v ∈ values, AllSafe script v) :
    AllSafe script (if values.length > 1 then
      [.code "("] ++ joined " OR " (values.map (stillRunning op)) ++ [.code ")"]
      else (values.map (stillRunning op)).flatten) := by
  have hparts : ∀ part ∈ values.map (stillRunning op), AllSafe script part := by
    intro part hpart
    obtain ⟨v, hv, rfl⟩ := List.mem_map.mp hpart
    exact stillRunning_safe hop (h v hv)
  refine allSafe_ite ?_ (allSafe_flatten.mpr hparts)
  simp (disch := decide) only [allSafe_append, allSafe_cons, allSafe_nil, safe_code,
    @allSafe_joined script _ " OR " (by decide) hparts, and_self]

/-- The right side is a value, or a list that no value of another kind is part of. -/
theorem operatorSql_safe (hscript : script.Documented) (attr val : String) {op : String}
    (hop : Allowed (digit script.toRuntime) op) {value : List Piece} {values : List (List Piece)}
    (hvalues : ∀ v ∈ values, AllSafe script v)
    (hvalue : AllSafe script value ∨ (dateColumn attr).isSome ∨
      op ∈ ["=[]", "IN", "![]", "NOT IN"]) :
    AllSafe script (operatorSql script attr op val value values) := by
  unfold operatorSql
  split
  next column hcolumn =>
    simp (disch := decide) only [allSafe_append, allSafe_cons, allSafe_nil, safe_code,
      dateRangeSql_safe hscript (dateColumn_texts hcolumn) hop hvalues, and_self]
  next hcolumn =>
    have hlist := @allSafe_joined script _ "," (by decide) hvalues
    have hrunning := joined_stillRunning_safe hop hvalues
    rcases hvalue with hvalue | hvalue | hvalue
    · repeat' apply allSafe_ite
      all_goals simp (disch := decide) only [allSafe_append, allSafe_cons, allSafe_nil, safe_code, safe_user,
        tagged_safe, hvalue, hop, hlist, hrunning, and_self]
    · rw [hcolumn] at hvalue
      cases hvalue
    · simp only [List.mem_cons, List.not_mem_nil, or_false] at hvalue
      refine allSafe_ite ?_ (allSafe_ite (tagged_safe _) (allSafe_ite (tagged_safe _) ?_))
      · simp (disch := decide) only [allSafe_append, allSafe_cons, allSafe_nil, safe_code, hrunning, and_self]
      · rcases hvalue with rfl | rfl | rfl | rfl <;> simp (disch := decide) [hlist]

end AllSafe

end ZoneMinder.Filter
