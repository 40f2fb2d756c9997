import ZoneMinder.CronTab.Grammar

namespace ZoneMinder.HttpRange

open Php CronTab

inductive Answer
  | whole
  | unsatisfiable
  | bytes (b e : ℤ)
  deriving DecidableEq

/-- What stands behind the unit, by `/^\s*bytes\s*=\s*(.*)$/is`. -/
def rangeSpec (header : Text) : Option Text :=
  let text := header.dropWhile space
  if (text.take 5).map Char.toLower ≠ "bytes".toList then none
  else
    match (text.drop 5).dropWhile space with
    | '=' :: rest => some (rest.dropWhile space)
    | _ => none

/-- The two ends, by `/^(\d*)\s*-\s*(\d*)$/`, of a text that has no newline at its end. -/
def rangeEnds (first : Text) : Option (Text × Text) :=
  match (first.dropWhile Char.isDigit).dropWhile space with
  | '-' :: rest =>
    let last := rest.dropWhile space
    if last.all Char.isDigit then some (first.takeWhile Char.isDigit, last) else none
  | _ => none

def parseHttpRange (header : Text) (size : ℤ) : Answer :=
  match rangeSpec header with
  | none => .whole
  | some rest =>
    let spec := trim rest
    if spec = [] then .whole
    else
      match rangeEnds (trim (spec.takeWhile (· ≠ ','))) with
      | none => .whole
      | some (first, last) =>
        if first = [] ∧ last = [] then .whole
        else if first = [] then
          let suffix := intval last
          if suffix ≤ 0 ∨ size ≤ 0 then .unsatisfiable
          else
            let b := if size ≤ suffix then 0 else size - suffix
            let e := size - 1
            if size ≤ 0 ∨ b < 0 ∨ size ≤ b ∨ e < b then .unsatisfiable else .bytes b e
        else
          let b := intval first
          let e := if last = [] then size - 1 else intval last
          let e := if size - 1 < e then size - 1 else e
          if size ≤ 0 ∨ b < 0 ∨ size ≤ b ∨ e < b then .unsatisfiable else .bytes b e

/-- What the system does at each turn of the loop: whether the client is still there, and for a
position in the file whether it counts as the end, and how much of what is wanted is read. -/
structure Reads where
  connected : ℕ → Bool
  feof : ℕ → ℕ → Bool
  fread : ℕ → ℕ → ℕ → ℕ

def chunk (file : List UInt8) (reads : Reads) (turn position length : ℕ) : List UInt8 :=
  let wanted := min (1024 * 16) length
  (file.drop position).take (min (reads.fread turn position wanted) wanted)

def sendLoop (file : List UInt8) (reads : Reads) (turn position length : ℕ) : List UInt8 :=
  if 0 < length ∧ reads.feof turn position = false ∧ reads.connected turn = true then
    let data := chunk file reads turn position length
    if data = [] then []
    else data ++ sendLoop file reads (turn + 1) (position + data.length) (length - data.length)
  else []
termination_by length
decreasing_by
  rename_i hturn hdata
  exact Nat.sub_lt hturn.1 (List.length_pos_iff.mpr hdata)

structure Response where
  status : ℕ
  contentRange : Option Text
  contentLength : ℤ
  body : List UInt8

/-- The part of the view that answers for a file that could be opened. -/
def viewVideo (header : Option Text) (file : List UInt8) (reads : Reads) : Response :=
  let size : ℤ := file.length
  let send (status : ℕ) (contentRange : Option Text) (b e : ℤ) : Response :=
    let length := if e - b + 1 < 0 then 0 else e - b + 1
    ⟨status, contentRange, length, sendLoop file reads 0 b.toNat length.toNat⟩
  match header.map fun text ↦ parseHttpRange text size with
  | some .unsatisfiable => ⟨416, some ("bytes */".toList ++ decimal size), 0, []⟩
  | some (.bytes b e) =>
    send 206
      (some ("bytes ".toList ++ decimal b ++ '-' :: decimal e ++ '/' :: decimal size)) b e
  | _ => send 200 none 0 (size - 1)

inductive ByteRange
  | from (n : ℕ)
  | between (n m : ℕ)
  | suffix (n : ℕ)

def ByteRange.Selects (size : ℕ) : ByteRange → ℕ → Prop
  | .from n, i => n ≤ i ∧ i < size
  | .between n m, i => n ≤ i ∧ i ≤ m ∧ i < size
  | .suffix n, i => size ≤ i + n ∧ i < size

def Blank (text : Text) : Prop := ∀ c ∈ text, space c = true

/-- A range with blanks around the dash. -/
inductive Spelled : ByteRange → Text → Prop
  | from {first u v : Text} {n : ℕ} : Number first n → Blank u → Blank v →
      Spelled (.from n) (first ++ u ++ '-' :: v)
  | between {first last u v : Text} {n m : ℕ} : Number first n → Number last m → Blank u →
      Blank v → Spelled (.between n m) (first ++ u ++ '-' :: (v ++ last))
  | suffix {last u v : Text} {n : ℕ} : Number last n → Blank u → Blank v →
      Spelled (.suffix n) (u ++ '-' :: (v ++ last))

/-- The unit in either case, and behind it the text up to the first comma, with blanks around. -/
inductive Asks (range : ByteRange) : Text → Prop
  | bytes {u unit v rest : Text} : Blank u → unit.map Char.toLower = "bytes".toList → Blank v →
      Spelled range (trim ((rest.dropWhile space).takeWhile (· ≠ ','))) →
      Asks range (u ++ unit ++ v ++ '=' :: rest)

section Text

variable {text header first last u v w : Text} {range : ByteRange} {n : ℕ}

theorem not_digit_of_space {c : Char} (h : space c = true) : c.isDigit = false := by
  simp only [space, List.mem_cons, List.not_mem_nil, or_false, decide_eq_true_eq] at h
  rcases h with rfl | rfl | rfl | rfl | rfl | rfl <;> rfl

theorem not_space_of_digit {c : Char} (h : c.isDigit = true) : space c = false := by
  by_contra hspace
  rw [not_digit_of_space (by simpa using hspace)] at h
  cases h

theorem dropWhile_blank (hu : Blank u) (hw : ∀ c ∈ w.head?, space c = false) :
    (u ++ w).dropWhile space = w := by
  rw [List.dropWhile_append_of_pos hu]
  cases w with
  | nil => rfl
  | cons c w => rw [List.dropWhile_cons_of_neg (by simp [hw c rfl])]

theorem rangeEnds_append (hfirst : ∀ c ∈ first, c.isDigit = true) (hu : Blank u) (hv : Blank v)
    (hlast : ∀ c ∈ last, c.isDigit = true) :
    rangeEnds (first ++ u ++ '-' :: (v ++ last)) = some (first, last) := by
  have hstop : ∀ c ∈ (u ++ '-' :: (v ++ last)).head?, c.isDigit = false := by
    intro c hc
    cases u with
    | nil =>
      obtain rfl : '-' = c := by simpa using hc
      rfl
    | cons d u =>
      obtain rfl : d = c := by simpa using hc
      exact not_digit_of_space (hu d List.mem_cons_self)
  have hdrop : (first ++ u ++ '-' :: (v ++ last)).dropWhile Char.isDigit =
      u ++ '-' :: (v ++ last) := by
    rw [List.append_assoc, Lib.dropWhile_append_head hstop,
      List.dropWhile_eq_nil_iff.mpr hfirst, List.nil_append]
  have htake : (first ++ u ++ '-' :: (v ++ last)).takeWhile Char.isDigit = first := by
    rw [List.append_assoc, Lib.takeWhile_append_head hstop, List.takeWhile_eq_self_iff.mpr hfirst]
  have hblank : (v ++ last).dropWhile space = last :=
    dropWhile_blank hv fun c hc ↦ not_space_of_digit (hlast c (List.mem_of_mem_head? hc))
  have hdigits : last.all Char.isDigit = true := List.all_eq_true.mpr hlast
  rw [rangeEnds, hdrop, htake, dropWhile_blank hu (by simp [space])]
  simp [hblank, hdigits]

theorem exists_of_rangeEnds (h : rangeEnds text = some (first, last)) :
    ∃ u v, text = first ++ u ++ '-' :: (v ++ last) ∧ Blank u ∧ Blank v ∧
      (∀ c ∈ first, c.isDigit = true) ∧ ∀ c ∈ last, c.isDigit = true := by
  rw [rangeEnds] at h
  split at h
  case h_1 rest hrest =>
    obtain ⟨hdigits, heq⟩ := Option.ite_none_right_eq_some.mp h
    obtain ⟨rfl, rfl⟩ := Prod.mk.inj (Option.some.inj heq)
    refine ⟨(text.dropWhile Char.isDigit).takeWhile space, rest.takeWhile space, ?_,
      fun c hc ↦ List.mem_takeWhile_imp hc, fun c hc ↦ List.mem_takeWhile_imp hc,
      fun c hc ↦ List.mem_takeWhile_imp hc, List.all_eq_true.mp hdigits⟩
    rw [List.takeWhile_append_dropWhile, ← hrest, List.append_assoc,
      List.takeWhile_append_dropWhile, List.takeWhile_append_dropWhile]
  case h_2 => cases h

theorem not_space_of_toLower {c : Char} (h : c.toLower = 'b') : space c = false := by
  by_contra hspace
  simp only [space, List.mem_cons, List.not_mem_nil, or_false, decide_eq_true_eq,
    Bool.not_eq_false] at hspace
  revert h
  rcases hspace with rfl | rfl | rfl | rfl | rfl | rfl <;> decide

theorem rangeSpec_append {unit rest : Text} (hu : Blank u)
    (hunit : unit.map Char.toLower = "bytes".toList) (hv : Blank v) :
    rangeSpec (u ++ unit ++ v ++ '=' :: rest) = some (rest.dropWhile space) := by
  have hlength : unit.length = 5 := by
    rw [← List.length_map (f := Char.toLower), hunit]
    rfl
  have hhead : ∀ c ∈ (unit ++ (v ++ '=' :: rest)).head?, space c = false := by
    intro c hc
    cases unit with
    | nil => cases hlength
    | cons d unit =>
      obtain rfl : d = c := by simpa using hc
      exact not_space_of_toLower (List.cons.inj hunit).1
  rw [rangeSpec, List.append_assoc, List.append_assoc, dropWhile_blank hu hhead,
    List.take_left' hlength, List.drop_left' hlength, dropWhile_blank hv (by simp [space])]
  simp [hunit]

theorem exists_of_rangeSpec {spec : Text} (h : rangeSpec header = some spec) :
    ∃ u unit v rest, header = u ++ unit ++ v ++ '=' :: rest ∧ spec = rest.dropWhile space ∧
      Blank u ∧ unit.map Char.toLower = "bytes".toList ∧ Blank v := by
  rw [rangeSpec] at h
  obtain ⟨hunit, h⟩ := Option.ite_none_left_eq_some.mp h
  split at h
  case h_1 rest hrest =>
    refine ⟨header.takeWhile space, (header.dropWhile space).take 5,
      ((header.dropWhile space).drop 5).takeWhile space, rest, ?_, (Option.some.inj h).symm,
      fun c hc ↦ List.mem_takeWhile_imp hc, not_not.mp hunit,
      fun c hc ↦ List.mem_takeWhile_imp hc⟩
    rw [← hrest, List.append_assoc, List.takeWhile_append_dropWhile, List.append_assoc,
      List.take_append_drop, List.takeWhile_append_dropWhile]
  case h_2 => cases h

theorem takeWhile_trim (rest : Text) :
    trim ((trim rest).takeWhile (· ≠ ',')) = trim (rest.takeWhile (· ≠ ',')) := by
  refine Lib.trim_takeWhile_trim (fun c hc ↦ ?_) rest
  simp only [trimmed, List.mem_cons, List.not_mem_nil, or_false, decide_eq_true_eq] at hc
  rcases hc with rfl | rfl | rfl | rfl | rfl | rfl <;> rfl

def ByteRange.answer (size : ℕ) : ByteRange → Answer
  | .from n => if n < size then .bytes n (size - 1) else .unsatisfiable
  | .between n m =>
    if n < size ∧ n ≤ m then .bytes n (min m (size - 1)) else .unsatisfiable
  | .suffix n => if 0 < n ∧ 0 < size then .bytes (size - min n size) (size - 1) else .unsatisfiable

/-- No size is beyond what an integer holds, so no number is read as another below it. -/
theorem parseHttpRange_of_asks {size : ℕ} (hsize : size < 2 ^ 63) (h : Asks range header) :
    parseHttpRange header size = range.answer size := by
  cases h with
  | @bytes u unit v rest hu hunit hv hspelled =>
    rw [← takeWhile_trim] at hspelled
    have hne : trim (rest.dropWhile space) ≠ [] := by
      intro hnil
      rw [hnil] at hspelled
      have hdash : ∀ text, Spelled range text → '-' ∈ text := by
        intro text htext
        cases htext <;> simp
      exact absurd (hdash _ hspelled) (by simp [trim, Lib.trim])
    rw [parseHttpRange, rangeSpec_append hu hunit hv]
    simp only [if_neg hne]
    generalize trim ((trim (rest.dropWhile space)).takeWhile (· ≠ ',')) = text at hspelled ⊢
    cases hspelled with
    | @«from» first u v n hn hu hv =>
      have hends : rangeEnds (first ++ u ++ '-' :: (v ++ [])) = some (first, []) :=
        rangeEnds_append hn.digits hu hv (by simp)
      rw [List.append_nil] at hends
      rw [hends]
      simp only [hn.ne_nil, hn.intval, ByteRange.answer, false_and, if_false, if_true]
      split_ifs <;> first | omega | rfl | (rw [Answer.bytes.injEq]; omega)
    | @between first last u v n m hn hm hu hv =>
      rw [rangeEnds_append hn.digits hu hv hm.digits]
      simp only [hn.ne_nil, hm.ne_nil, hn.intval, hm.intval, ByteRange.answer, false_and, if_false]
      split_ifs <;> first | omega | rfl | (rw [Answer.bytes.injEq]; omega)
    | @suffix last u v n hn hu hv =>
      have hends : rangeEnds ([] ++ u ++ '-' :: (v ++ last)) = some ([], last) :=
        rangeEnds_append (by simp) hu hv hn.digits
      rw [List.nil_append] at hends
      rw [hends]
      simp only [hn.ne_nil, hn.intval, ByteRange.answer, and_false, if_false, if_true]
      split_ifs <;> first | omega | rfl | (rw [Answer.bytes.injEq]; omega)

theorem ByteRange.answer_ne_whole (size : ℕ) (range : ByteRange) : range.answer size ≠ .whole := by
  cases range <;> simp only [answer] <;> split_ifs <;> simp

theorem ByteRange.answer_unsatisfiable_iff (size : ℕ) (range : ByteRange) :
    range.answer size = .unsatisfiable ↔ ∀ i, ¬range.Selects size i := by
  constructor
  · intro h i
    cases range <;> simp only [answer, Selects] at h ⊢ <;> split_ifs at h <;> omega
  · intro h
    cases range with
    | «from» n =>
      have hn := h n
      simp only [Selects] at hn
      exact if_neg (by omega)
    | between n m =>
      have hn := h n
      simp only [Selects] at hn
      exact if_neg (by omega)
    | suffix n =>
      have hlast := h (size - 1)
      simp only [Selects] at hlast
      exact if_neg (by omega)

theorem ByteRange.answer_bytes {size : ℕ} {b e : ℤ} (h : range.answer size = .bytes b e) :
    0 ≤ b ∧ b ≤ e ∧ e ≤ size - 1 ∧ ∀ i : ℕ, range.Selects size i ↔ b ≤ i ∧ (i : ℤ) ≤ e := by
  cases range <;> simp only [answer, Selects] at h ⊢ <;> split_ifs at h <;>
    obtain ⟨rfl, rfl⟩ := Answer.bytes.inj h <;>
      refine ⟨by omega, by omega, by omega, fun i ↦ ?_⟩ <;> omega

theorem exists_asks {size : ℤ} (h : parseHttpRange header size ≠ .whole) :
    ∃ range, Asks range header := by
  rw [parseHttpRange] at h
  split at h
  case h_1 => exact absurd rfl h
  case h_2 spec hspec =>
    obtain ⟨u, unit, v, rest, rfl, rfl, hu, hunit, hv⟩ := exists_of_rangeSpec hspec
    have hasks : ∀ range : ByteRange,
        Spelled range (trim ((rest.dropWhile space).takeWhile (· ≠ ','))) →
          ∃ range, Asks range (u ++ unit ++ v ++ '=' :: rest) :=
      fun range hspelled ↦ ⟨range, .bytes hu hunit hv hspelled⟩
    by_cases hnil : trim (rest.dropWhile space) = []
    · exact absurd (if_pos hnil) h
    · simp only [if_neg hnil] at h
      split at h
      case h_1 => exact absurd rfl h
      case h_2 first last hends =>
        rw [takeWhile_trim] at hends
        obtain ⟨u', v', htext, hu', hv', hfirst, hlast⟩ := exists_of_rangeEnds hends
        rw [htext] at hasks
        have hnumber : ∀ text : Text, text ≠ [] → (∀ c ∈ text, c.isDigit = true) →
            Number text (Nat.ofDigitChars 10 text 0) := fun text hne hdigits ↦ ⟨hne, hdigits, rfl⟩
        by_cases hfirst_nil : first = []
        · subst hfirst_nil
          by_cases hlast_nil : last = []
          · exact absurd (if_pos ⟨rfl, hlast_nil⟩) h
          · exact hasks _ (.suffix (hnumber last hlast_nil hlast) hu' hv')
        · by_cases hlast_nil : last = []
          · subst hlast_nil
            rw [List.append_nil] at hasks
            exact hasks _ (.from (hnumber first hfirst_nil hfirst) hu' hv')
          · exact hasks _ (.between (hnumber first hfirst_nil hfirst)
              (hnumber last hlast_nil hlast) hu' hv')

end Text

section Send

variable {file : List UInt8} {reads : Reads}

/-- The client stays, and every read before the end of the file brings something. -/
structure Steady (file : List UInt8) (reads : Reads) : Prop where
  connected : ∀ turn, reads.connected turn = true
  feof : ∀ turn position, position < file.length → reads.feof turn position = false
  fread : ∀ turn position wanted, position < file.length → 0 < wanted →
    0 < reads.fread turn position wanted

theorem Steady.exists_chunk (h : Steady file reads) (turn : ℕ) {position length : ℕ}
    (hlength : 0 < length) (hle : position + length ≤ file.length) :
    ∃ k, 0 < k ∧ k ≤ length ∧
      chunk file reads turn position length = (file.drop position).take k := by
  have hcount := h.fread turn position (min (1024 * 16) length) (by omega) (by omega)
  exact ⟨_, by omega, by omega, rfl⟩

/-- However the file is read, what is sent is what was promised of it. -/
theorem sendLoop_eq (h : Steady file reads) (turn position length : ℕ)
    (hle : position + length ≤ file.length) :
    sendLoop file reads turn position length = (file.drop position).take length := by
  induction length using Nat.strong_induction_on generalizing turn position with
  | h length ih =>
    rw [sendLoop]
    by_cases hlength : 0 < length
    · obtain ⟨k, hpos, hk, hchunk⟩ := h.exists_chunk turn hlength hle
      have hdata : ((file.drop position).take k).length = k := by
        rw [List.length_take, List.length_drop]
        omega
      have hne : (file.drop position).take k ≠ [] := by
        rw [← List.length_pos_iff, hdata]
        exact hpos
      rw [if_pos ⟨hlength, h.feof turn position (by omega), h.connected turn⟩]
      simp only [hchunk, if_neg hne, hdata]
      rw [ih _ (by omega) _ _ (by omega), ← List.drop_drop, ← List.take_add,
        Nat.add_sub_cancel' hk]
    · rw [if_neg fun hturn ↦ hlength hturn.1, Nat.eq_zero_of_not_pos hlength, List.take_zero]

end Send

/-- The range that a header asks for is the one that is sent, whatever the file and the reads. -/
theorem parseHttpRange_exact (header : Text) (size : ℕ) (hsize : size < 2 ^ 63) :
    (parseHttpRange header size = .whole ↔ ¬∃ range, Asks range header) ∧
    ∀ range, Asks range header →
      (parseHttpRange header size = .unsatisfiable ↔ ∀ i, ¬range.Selects size i) ∧
      ∀ b e, parseHttpRange header size = .bytes b e →
        0 ≤ b ∧ b ≤ e ∧ e ≤ size - 1 ∧ (∀ i : ℕ, range.Selects size i ↔ b ≤ i ∧ (i : ℤ) ≤ e) ∧
        ∀ (file : List UInt8) (reads : Reads), file.length = size → Steady file reads →
          (viewVideo (some header) file reads).contentLength = e - b + 1 ∧
          (viewVideo (some header) file reads).body =
            (file.drop b.toNat).take (e - b + 1).toNat ∧
          ((viewVideo (some header) file reads).body.length : ℤ) = e - b + 1 := by
  refine ⟨⟨?_, ?_⟩, ?_⟩
  · rintro hwhole ⟨range, hasks⟩
    rw [parseHttpRange_of_asks hsize hasks] at hwhole
    exact range.answer_ne_whole size hwhole
  · intro hnone
    by_contra hwhole
    exact hnone (exists_asks hwhole)
  · intro range hasks
    rw [parseHttpRange_of_asks hsize hasks]
    refine ⟨range.answer_unsatisfiable_iff size, fun b e hbytes ↦ ?_⟩
    obtain ⟨hb, hbe, he, hselects⟩ := ByteRange.answer_bytes hbytes
    refine ⟨hb, hbe, he, hselects, ?_⟩
    rintro file reads rfl hsteady
    have hlength : (if e - b + 1 < 0 then 0 else e - b + 1) = e - b + 1 := if_neg (by omega)
    have hbody := sendLoop_eq hsteady 0 b.toNat (e - b + 1).toNat (by omega)
    rw [viewVideo, Option.map_some, parseHttpRange_of_asks hsize hasks, hbytes]
    simp only [hlength, hbody, List.length_take, List.length_drop, true_and]
    omega

theorem parseHttpRange_exact_suffix :
    Asks (.suffix 300) "bytes = - 300 , 0-4".toList ∧
    parseHttpRange "bytes = - 300 , 0-4".toList (1000 : ℕ) = .bytes 700 999 ∧
    (∀ i : ℕ, (ByteRange.suffix 300).Selects 1000 i ↔ 700 ≤ (i : ℤ) ∧ (i : ℤ) ≤ 999) ∧
    ∀ (file : List UInt8) (reads : Reads), file.length = 1000 → Steady file reads →
      (viewVideo (some "bytes = - 300 , 0-4".toList) file reads).contentLength = 300 ∧
      (viewVideo (some "bytes = - 300 , 0-4".toList) file reads).body = (file.drop 700).take 300 ∧
      ((viewVideo (some "bytes = - 300 , 0-4".toList) file reads).body.length : ℤ) = 300 := by
  have hblank : Blank [' '] := by simp [Blank, space]
  have hspelled : Spelled (.suffix 300) "- 300".toList :=
    .suffix ⟨by decide, List.all_eq_true.mp (by decide), by decide⟩ (List.forall_mem_nil _)
      hblank
  have hasks : Asks (.suffix 300) "bytes = - 300 , 0-4".toList :=
    .bytes (List.forall_mem_nil _) (rfl : "bytes".toList.map Char.toLower = _) hblank hspelled
  have hbytes : parseHttpRange "bytes = - 300 , 0-4".toList (1000 : ℕ) = .bytes 700 999 := by
    decide +kernel
  obtain ⟨-, -, -, hselects, hsent⟩ :=
    ((parseHttpRange_exact _ 1000 (by decide)).2 _ hasks).2 _ _ hbytes
  exact ⟨hasks, hbytes, hselects, hsent⟩

/-- A range without a blank in it. -/
inductive Plain : Text → Prop
  | from {first : Text} {n : ℕ} : Number first n → Plain (first ++ ['-'])
  | between {first last : Text} {n m : ℕ} : Number first n → Number last m →
      Plain (first ++ '-' :: last)
  | suffix {last : Text} {n : ℕ} : Number last n → Plain ('-' :: last)

/-- The unit in capitals is taken too. -/
theorem parseHttpRange_capitals :
    ¬(parseHttpRange "BYTES=0-99".toList 1000 = .whole ↔
      ¬∃ first rest, "BYTES=0-99".toList = "bytes=".toList ++ first ++ rest ∧ Plain first ∧
        ∀ c ∈ rest.head?, c = ',') := by
  intro hiff
  have hbytes : parseHttpRange "BYTES=0-99".toList 1000 = .bytes 0 99 := by decide +kernel
  rw [hbytes] at hiff
  refine absurd (hiff.mpr ?_) (by simp)
  rintro ⟨first, rest, heq, -, -⟩
  simp at heq

end ZoneMinder.HttpRange
