import ZoneMinder.Lib.Words
import Mathlib.Data.List.TakeWhile
import Mathlib.Logic.Function.Basic

namespace ZoneMinder.Utils

open Lib

section

variable {b : UInt8} {src value : Bytes}

def isDigit (c : UInt8) : Bool := 48 ≤ c && c ≤ 57

def isAlpha (c : UInt8) : Bool := 65 ≤ c && c ≤ 90 || 97 ≤ c && c ≤ 122

def isXDigit (c : UInt8) : Bool := isDigit c || 65 ≤ c && c ≤ 70 || 97 ≤ c && c ≤ 102

/-- The value of a hexadecimal digit, upper case first. -/
def nibble (c : UInt8) : UInt8 :=
  let c := if 97 ≤ c then c - 32 else c
  if 65 ≤ c then c - 55 else c - 48

/-- The byte that two hexadecimal digits after a `%` stand for. -/
def escaped : Bytes → Option UInt8
  | a :: b :: _ =>
    if a ≠ 0 ∧ b ≠ 0 ∧ isXDigit a ∧ isXDigit b then some (16 * nibble a + nibble b) else none
  | _ => none

/-- The text ends at a zero byte. -/
def uriDecode : Bytes → Bytes
  | [] => []
  | c :: src =>
    if c = 0 then []
    else if c = 37 ∧ (escaped src).isSome then (escaped src).getD 0 :: uriDecode (src.drop 2)
    else if c = 43 then 32 :: uriDecode src
    else c :: uriDecode src
termination_by src => src.length
decreasing_by
  all_goals
    simp only [List.length_cons, List.length_drop]
    omega

/-- The unreserved characters, which are ASCII only. -/
def unreserved (c : UInt8) : Bool :=
  c < 128 && (isDigit c || isAlpha c || c = 45 || c = 95 || c = 46 || c = 126)

/-- The digit that `%02X` prints. -/
def hexDigit (n : UInt8) : UInt8 := if n < 10 then 48 + n else 55 + n

def encodeByte (c : UInt8) : Bytes :=
  if c = 32 then [37, 50, 48]
  else if unreserved c then [c]
  else [37, hexDigit (c / 16), hexDigit (c % 16)]

/-- The text ends at a zero byte. -/
def uriEncode (value : Bytes) : Bytes := (value.takeWhile (fun c ↦ c ≠ 0)).flatMap encodeByte

theorem escaped_hexDigit (b : UInt8) (rest : Bytes) :
    escaped (hexDigit (b / 16) :: hexDigit (b % 16) :: rest) = some b := by
  have hdigits : hexDigit (b / 16) ≠ 0 ∧ hexDigit (b % 16) ≠ 0 ∧ isXDigit (hexDigit (b / 16)) ∧
      isXDigit (hexDigit (b % 16)) ∧
        16 * nibble (hexDigit (b / 16)) + nibble (hexDigit (b % 16)) = b := by
    induction b using byte_induction with
    | h n =>
      revert n
      decide +kernel
  obtain ⟨hfirst, hsecond, hfirst', hsecond', hvalue⟩ := hdigits
  rw [escaped, if_pos ⟨hfirst, hsecond, hfirst', hsecond'⟩, hvalue]

theorem unreserved_plain (h : unreserved b) : b ≠ 0 ∧ b ≠ 37 ∧ b ≠ 38 ∧ b ≠ 43 ∧ b ≠ 61 := by
  induction b using byte_induction with
  | h n =>
    revert n
    decide +kernel

/-- An encoded byte reads back, whatever follows it. -/
theorem uriDecode_encodeByte (hb : b ≠ 0) (rest : Bytes) :
    uriDecode (encodeByte b ++ rest) = b :: uriDecode rest := by
  unfold encodeByte
  split_ifs with hspace hplain
  · have hescaped := escaped_hexDigit 32 rest
    have hdigits : hexDigit (32 / 16) = 50 ∧ hexDigit (32 % 16) = 48 := by decide
    rw [hdigits.1, hdigits.2] at hescaped
    rw [hspace, List.cons_append, uriDecode]
    simp [hescaped]
  · obtain ⟨-, hpercent, -, hplus, -⟩ := unreserved_plain hplain
    rw [List.singleton_append, uriDecode]
    simp [hb, hpercent, hplus]
  · rw [List.cons_append, uriDecode]
    simp [escaped_hexDigit]

theorem uriEncode_of_ne (h : ∀ b ∈ value, b ≠ 0) : uriEncode value = value.flatMap encodeByte := by
  have htake : value.takeWhile (fun c ↦ c ≠ 0) = value := by
    rw [List.takeWhile_eq_self_iff]
    exact fun b hb ↦ by simpa using h b hb
  rw [uriEncode, htake]

theorem uriDecode_uriEncode (h : ∀ b ∈ value, b ≠ 0) : uriDecode (uriEncode value) = value := by
  rw [uriEncode_of_ne h]
  induction value with
  | nil =>
    rw [List.flatMap_nil, uriDecode]
  | cons b value ih =>
    rw [List.flatMap_cons, uriDecode_encodeByte (h b (by simp)), ih fun c hc ↦ h c (by simp [hc])]

/-- An encoded text holds neither a zero byte nor a `&`. -/
theorem mem_uriEncode (h : b ∈ uriEncode value) : b ≠ 0 ∧ b ≠ 38 := by
  obtain ⟨c, -, hb⟩ := List.mem_flatMap.mp h
  unfold encodeByte at hb
  split_ifs at hb with hspace hplain
  · simp only [List.mem_cons, List.not_mem_nil, or_false] at hb
    rcases hb with rfl | rfl | rfl <;> decide
  · obtain rfl := List.mem_singleton.mp hb
    obtain ⟨hzero, -, hamp, -, -⟩ := unreserved_plain hplain
    exact ⟨hzero, hamp⟩
  · have hdigit : ∀ n : UInt8, hexDigit (n % 16) ≠ 0 ∧ hexDigit (n % 16) ≠ 38 ∧
        hexDigit (n / 16) ≠ 0 ∧ hexDigit (n / 16) ≠ 38 := by
      intro n
      induction n using byte_induction with
      | h n =>
        revert n
        decide +kernel
    obtain ⟨hlow, hlow', hhigh, hhigh'⟩ := hdigit c
    simp only [List.mem_cons, List.not_mem_nil, or_false] at hb
    rcases hb with rfl | rfl | rfl
    · decide
    · exact ⟨hhigh, hhigh'⟩
    · exact ⟨hlow, hlow'⟩

theorem uriEncode_ne_nil (h : ∀ b ∈ value, b ≠ 0) (hne : value ≠ []) : uriEncode value ≠ [] := by
  intro hnil
  have hround := uriDecode_uriEncode h
  rw [hnil, uriDecode] at hround
  exact hne hround.symm

end

/-- An input stream that fails at its end only. -/
structure Input where
  rest : Bytes
  eof : Bool

namespace Input

/-- What a reader has left, the end counted as one step. -/
def left (input : Input) : ℕ := input.rest.length + if input.eof then 0 else 1

/-- The next character, which stays in the stream, or -1. -/
def peek (input : Input) : ℤ × Input :=
  if input.eof then (-1, input)
  else
    match input.rest with
    | [] => (-1, ⟨[], true⟩)
    | c :: _ => (c.toNat, input)

def get (input : Input) : ℤ × Input :=
  if input.eof then (-1, input)
  else
    match input.rest with
    | [] => (-1, ⟨[], true⟩)
    | c :: rest => (c.toNat, ⟨rest, false⟩)

@[simp] theorem peek_nil : peek ⟨[], false⟩ = (-1, ⟨[], true⟩) := rfl

@[simp] theorem peek_cons (c : UInt8) (rest : Bytes) :
    peek ⟨c :: rest, false⟩ = ((c.toNat : ℤ), ⟨c :: rest, false⟩) := rfl

@[simp] theorem get_nil : get ⟨[], false⟩ = (-1, ⟨[], true⟩) := rfl

@[simp] theorem get_cons (c : UInt8) (rest : Bytes) :
    get ⟨c :: rest, false⟩ = ((c.toNat : ℤ), ⟨rest, false⟩) := rfl

variable (input : Input)

theorem left_peek : input.peek.2.left ≤ input.left := by
  obtain ⟨rest, eof⟩ := input
  cases eof with
  | true => exact Nat.le_refl _
  | false => cases rest <;> simp [peek, left]

theorem left_get : input.get.2.left ≤ input.left := by
  obtain ⟨rest, eof⟩ := input
  cases eof with
  | true => exact Nat.le_refl _
  | false => cases rest <;> simp [get, left]

variable {input}

theorem left_get_lt (h : input.eof = false) : input.get.2.left < input.left := by
  obtain ⟨rest, eof⟩ := input
  obtain rfl : eof = false := h
  cases rest <;> simp [get, left]

theorem get_peek : input.peek.2.get = input.get := by
  obtain ⟨rest, eof⟩ := input
  cases eof with
  | true => rfl
  | false => cases rest <;> rfl

theorem eof_of_get (h : 0 < input.get.1) : input.eof = false := by
  by_contra heof
  rw [Bool.not_eq_false] at heof
  rw [get, if_pos heof] at h
  simp at h

end Input

/-- What `push_back` keeps of an `int`. -/
def charOf (c : ℤ) : UInt8 := UInt8.ofNat (c % 256).toNat

/-- The loop of `parseName`. At the end it pushes what `get` returns there. -/
def nameFrom (input : Input) : Bytes × Input :=
  if _h : input.eof then ([], input)
  else if input.peek.1 = 61 then ([], input.peek.2)
  else
    let found := nameFrom input.peek.2.get.2
    (charOf input.peek.2.get.1 :: found.1, found.2)
termination_by input.left
decreasing_by
  rw [Input.get_peek]
  exact Input.left_get_lt (by simpa using _h)

def parseName (input : Input) : Bytes × Input :=
  let found := nameFrom input
  if found.2.eof then found else (found.1, found.2.get.2)

/-- The loop of `parseValue`. -/
def valueFrom (input : Input) : Bytes × Input :=
  if _h : 0 < input.get.1 ∧ input.get.1 ≠ 38 then
    let found := valueFrom input.get.2
    (charOf input.get.1 :: found.1, found.2)
  else ([], input.get.2)
termination_by input.left
decreasing_by exact Input.left_get_lt (Input.eof_of_get _h.1)

def parseValue (input : Input) : Bytes × Input :=
  let found := valueFrom input
  (if found.1 = [] then [] else uriDecode found.1, found.2)

/-- The parameters of a query string: the values of each name. -/
abbrev Parameters := Bytes → Option (List Bytes)

/-- Only the first value of a name is left out when it is empty. -/
def addParameter (parameters : Parameters) (name value : Bytes) : Parameters :=
  Function.update parameters name <| some <|
    match parameters name with
    | none => if value = [] then [] else [value]
    | some values => values ++ [value]

theorem left_nameFrom (input : Input) : (nameFrom input).2.left ≤ input.left := by
  induction input using nameFrom.induct with
  | case1 input heof => rw [nameFrom, dif_pos heof]
  | case2 input heof hpeek =>
    rw [nameFrom, dif_neg heof, if_pos hpeek]
    exact input.left_peek
  | case3 input heof hpeek ih =>
    rw [nameFrom, dif_neg heof, if_neg hpeek]
    exact ih.trans (input.peek.2.left_get.trans input.left_peek)

theorem left_valueFrom (input : Input) : (valueFrom input).2.left ≤ input.left := by
  induction input using valueFrom.induct with
  | case1 input h ih =>
    rw [valueFrom, dif_pos h]
    exact ih.trans input.left_get
  | case2 input h =>
    rw [valueFrom, dif_neg h]
    exact input.left_get

/-- A name takes at least one character, if only its `=`. -/
theorem left_parseName {input : Input} (h : input.eof = false) :
    (parseName input.peek.2).2.left < input.left := by
  obtain ⟨rest, eof⟩ := input
  obtain rfl : eof = false := h
  cases rest with
  | nil =>
    rw [Input.peek_nil, parseName, nameFrom, dif_pos rfl, if_pos rfl]
    exact Nat.zero_lt_one
  | cons c rest =>
    have hlt : Input.left ⟨rest, false⟩ < Input.left ⟨c :: rest, false⟩ := by simp [Input.left]
    rw [Input.peek_cons, parseName, nameFrom, dif_neg Bool.false_ne_true, Input.peek_cons]
    split_ifs with hname heof heof
    · cases heof
    · exact hlt
    · exact Nat.lt_of_le_of_lt (left_nameFrom _) hlt
    · exact Nat.lt_of_le_of_lt ((Input.left_get _).trans (left_nameFrom _)) hlt

/-- The constructor's loop. -/
def parseFrom (input : Input) (parameters : Parameters) : Parameters :=
  if _h : input.eof = false ∧ 0 < input.peek.1 then
    let name := parseName input.peek.2
    let value := parseValue name.2
    parseFrom value.2 (addParameter parameters name.1 value.1)
  else parameters
termination_by input.left
decreasing_by exact Nat.lt_of_le_of_lt (left_valueFrom _) (left_parseName _h.1)

def queryString (text : Bytes) : Parameters := parseFrom ⟨text, false⟩ fun _ ↦ none

def values (parameters : Parameters) (name : Bytes) : List Bytes := (parameters name).getD []

variable {name value rest text : Bytes} {parameters : Parameters} {pairs : List (Bytes × Bytes)}

theorem charOf_toNat (c : UInt8) : charOf c.toNat = c := by
  have hc := c.toNat_lt
  have hmod : ((c.toNat : ℤ) % 256).toNat = c.toNat := by omega
  rw [charOf, hmod, UInt8.ofNat_toNat]

theorem nameFrom_append (h : 61 ∉ name) :
    nameFrom ⟨name ++ 61 :: rest, false⟩ = (name, ⟨61 :: rest, false⟩) := by
  induction name with
  | nil =>
    rw [nameFrom, dif_neg Bool.false_ne_true, List.nil_append, Input.peek_cons]
    rfl
  | cons c name ih =>
    have hc : (c.toNat : ℤ) ≠ 61 := by
      intro hc
      refine h (List.mem_cons.mpr (.inl ?_))
      apply UInt8.toNat_inj.mp
      exact (Int.ofNat_inj.mp hc).symm
    rw [nameFrom, dif_neg Bool.false_ne_true, List.cons_append, Input.peek_cons, if_neg hc,
      Input.get_cons]
    simp only [ih fun hmem ↦ h (List.mem_cons_of_mem c hmem), charOf_toNat]

theorem parseName_append (h : 61 ∉ name) :
    parseName ⟨name ++ 61 :: rest, false⟩ = (name, ⟨rest, false⟩) := by
  rw [parseName, nameFrom_append h]
  rfl

theorem valueFrom_cons {c : UInt8} (hzero : c ≠ 0) (hamp : c ≠ 38) (rest : Bytes) :
    valueFrom ⟨c :: rest, false⟩ =
      (c :: (valueFrom ⟨rest, false⟩).1, (valueFrom ⟨rest, false⟩).2) := by
  have hpos : 0 < (c.toNat : ℤ) := by
    have hne : c.toNat ≠ 0 := fun h ↦ hzero (UInt8.toNat_inj.mp h)
    omega
  have hne : (c.toNat : ℤ) ≠ 38 := fun h ↦ hamp (UInt8.toNat_inj.mp (Int.ofNat_inj.mp h))
  rw [valueFrom, dif_pos ⟨hpos, hne⟩, Input.get_cons]
  simp only [charOf_toNat]

theorem valueFrom_append (h : ∀ c ∈ value, c ≠ 0 ∧ c ≠ 38) :
    valueFrom ⟨value ++ 38 :: rest, false⟩ = (value, ⟨rest, false⟩) := by
  induction value with
  | nil =>
    rw [valueFrom, dif_neg (by simp), List.nil_append, Input.get_cons]
  | cons c value ih =>
    obtain ⟨hzero, hamp⟩ := h c List.mem_cons_self
    rw [List.cons_append, valueFrom_cons hzero hamp, ih fun d hd ↦ h d (List.mem_cons_of_mem c hd)]

theorem valueFrom_end (h : ∀ c ∈ value, c ≠ 0 ∧ c ≠ 38) :
    valueFrom ⟨value, false⟩ = (value, ⟨[], true⟩) := by
  induction value with
  | nil => rw [valueFrom, dif_neg (by simp), Input.get_nil]
  | cons c value ih =>
    obtain ⟨hzero, hamp⟩ := h c List.mem_cons_self
    rw [valueFrom_cons hzero hamp, ih fun d hd ↦ h d (List.mem_cons_of_mem c hd)]

/-- A pair as a field of a query string. -/
def field (pair : Bytes × Bytes) : Bytes := pair.1 ++ 61 :: uriEncode pair.2

def queryText (pairs : List (Bytes × Bytes)) : Bytes := [38].intercalate (pairs.map field)

/-- Names of unreserved characters, and values without a zero byte. -/
structure Writable (pair : Bytes × Bytes) : Prop where
  name_ne_nil : pair.1 ≠ []
  name_unreserved : ∀ c ∈ pair.1, unreserved c
  value_ne_zero : ∀ c ∈ pair.2, c ≠ 0

namespace Writable

variable {pair : Bytes × Bytes} (h : Writable pair)
include h

theorem notMem_name : 61 ∉ pair.1 := fun hmem ↦
  (unreserved_plain (h.name_unreserved 61 hmem)).2.2.2.2 rfl

theorem decode_value :
    (if uriEncode pair.2 = [] then [] else uriDecode (uriEncode pair.2)) = pair.2 := by
  rw [uriDecode_uriEncode h.value_ne_zero]
  split_ifs with hnil
  · by_contra hne
    exact uriEncode_ne_nil h.value_ne_zero (Ne.symm hne) hnil
  · rfl

theorem peek_field (rest : Bytes) :
    0 < (Input.peek ⟨field pair ++ rest, false⟩).1 ∧
      (Input.peek ⟨field pair ++ rest, false⟩).2 = ⟨field pair ++ rest, false⟩ := by
  obtain ⟨c, name, hname⟩ := List.exists_cons_of_ne_nil h.name_ne_nil
  have hc : c ≠ 0 := (unreserved_plain (h.name_unreserved c (by simp [hname]))).1
  have hpos : c.toNat ≠ 0 := fun h ↦ hc (UInt8.toNat_inj.mp h)
  rw [field, hname, List.cons_append, List.cons_append, Input.peek_cons]
  exact ⟨by omega, rfl⟩

/-- One round of the constructor. -/
theorem parseFrom_field {after : Input} (parameters : Parameters)
    (hvalue : valueFrom ⟨uriEncode pair.2 ++ rest, false⟩ = (uriEncode pair.2, after)) :
    parseFrom ⟨field pair ++ rest, false⟩ parameters =
      parseFrom after (addParameter parameters pair.1 pair.2) := by
  obtain ⟨hpos, hpeek⟩ := h.peek_field rest
  have hname : parseName ⟨field pair ++ rest, false⟩ =
      (pair.1, ⟨uriEncode pair.2 ++ rest, false⟩) := by
    rw [field, List.append_assoc, List.cons_append, parseName_append h.notMem_name]
  rw [parseFrom, dif_pos ⟨rfl, hpos⟩]
  simp only [hpeek, hname, parseValue, hvalue, h.decode_value]

end Writable

theorem parseFrom_queryText (h : ∀ pair ∈ pairs, Writable pair) (parameters : Parameters) :
    parseFrom ⟨queryText pairs, false⟩ parameters =
      pairs.foldl (fun parameters pair ↦ addParameter parameters pair.1 pair.2) parameters := by
  induction pairs generalizing parameters with
  | nil =>
    rw [parseFrom, dif_neg (by decide)]
    rfl
  | cons pair pairs ih =>
    have hpair := h pair List.mem_cons_self
    have hplain : ∀ c ∈ uriEncode pair.2, c ≠ 0 ∧ c ≠ 38 := fun c hc ↦ mem_uriEncode hc
    cases pairs with
    | nil =>
      have hvalue : valueFrom ⟨uriEncode pair.2 ++ [], false⟩ = (uriEncode pair.2, ⟨[], true⟩) := by
        rw [List.append_nil, valueFrom_end hplain]
      have htext : queryText [pair] = field pair ++ [] := by simp [queryText]
      rw [htext, hpair.parseFrom_field parameters hvalue, parseFrom, dif_neg (by simp)]
      rfl
    | cons next pairs =>
      have htext : queryText (pair :: next :: pairs) =
          field pair ++ 38 :: queryText (next :: pairs) := by
        simp [queryText, List.intercalate]
      rw [htext, hpair.parseFrom_field parameters (valueFrom_append hplain),
        ih fun p hp ↦ h p (List.mem_cons_of_mem pair hp)]
      rfl

/-- The values that a list of pairs has for a name. -/
def valuesOf (pairs : List (Bytes × Bytes)) (name : Bytes) : List Bytes :=
  (pairs.filter (fun pair ↦ pair.1 = name)).map Prod.snd

theorem valuesOf_cons (pair : Bytes × Bytes) (pairs : List (Bytes × Bytes)) (name : Bytes) :
    valuesOf (pair :: pairs) name =
      if pair.1 = name then pair.2 :: valuesOf pairs name else valuesOf pairs name := by
  unfold valuesOf
  split_ifs with h <;> simp [h]

/-- A name that is there takes every later value. -/
theorem foldl_of_some {found : List Bytes} (h : parameters name = some found) :
    pairs.foldl (fun parameters pair ↦ addParameter parameters pair.1 pair.2) parameters name =
      some (found ++ valuesOf pairs name) := by
  induction pairs generalizing parameters found with
  | nil => simp [valuesOf, h]
  | cons pair pairs ih =>
    rw [List.foldl_cons, valuesOf_cons]
    split_ifs with hname
    · have hadd : addParameter parameters pair.1 pair.2 name = some (found ++ [pair.2]) := by
        rw [addParameter, hname, Function.update_self, h]
      rw [ih hadd, List.append_assoc, List.singleton_append]
    · have hadd : addParameter parameters pair.1 pair.2 name = some found := by
        rw [addParameter, Function.update_of_ne (Ne.symm hname), h]
      rw [ih hadd]

/-- A new name takes its first value unless that is empty. -/
theorem foldl_of_none (h : parameters name = none) :
    (pairs.foldl (fun parameters pair ↦ addParameter parameters pair.1 pair.2) parameters
        name).getD [] =
      (valuesOf pairs name).head?.toList.filter (· ≠ []) ++ (valuesOf pairs name).tail := by
  induction pairs generalizing parameters with
  | nil => simp [valuesOf, h]
  | cons pair pairs ih =>
    rw [List.foldl_cons, valuesOf_cons]
    split_ifs with hname
    · have hadd : addParameter parameters pair.1 pair.2 name =
          some (if pair.2 = [] then [] else [pair.2]) := by
        rw [addParameter, hname, Function.update_self, h]
      rw [foldl_of_some hadd]
      by_cases hvalue : pair.2 = [] <;> simp [hvalue]
    · have hadd : addParameter parameters pair.1 pair.2 name = none := by
        rw [addParameter, Function.update_of_ne (Ne.symm hname), h]
      rw [ih hadd]

theorem values_queryText (h : ∀ pair ∈ pairs, Writable pair) (name : Bytes) :
    values (queryString (queryText pairs)) name =
      (valuesOf pairs name).head?.toList.filter (· ≠ []) ++ (valuesOf pairs name).tail := by
  rw [values, queryString, parseFrom_queryText h, foldl_of_none rfl]

/-- Every value reads back, and every name has the values that are not empty in their order. -/
def RoundTrips (pairs : List (Bytes × Bytes)) : Prop :=
  (∀ pair ∈ pairs, uriDecode (uriEncode pair.2) = pair.2) ∧
    ∀ name, values (queryString (queryText pairs)) name = (valuesOf pairs name).filter (· ≠ [])

/-- A value that is empty is left out the first time only. -/
theorem roundTrips_iff (h : ∀ pair ∈ pairs, Writable pair) :
    RoundTrips pairs ↔ ∀ name, ∀ value ∈ (valuesOf pairs name).tail, value ≠ [] := by
  have hname : ∀ name, values (queryString (queryText pairs)) name =
      (valuesOf pairs name).filter (· ≠ []) ↔ ∀ value ∈ (valuesOf pairs name).tail, value ≠ [] := by
    intro name
    rw [values_queryText h]
    cases valuesOf pairs name with
    | nil => simp
    | cons first later =>
      have hsplit : (first :: later).filter (· ≠ []) =
          [first].filter (· ≠ []) ++ later.filter (· ≠ []) := by
        rw [← List.filter_append, List.singleton_append]
      rw [hsplit, List.head?_cons, Option.toList_some, List.tail_cons,
        List.append_cancel_left_eq, eq_comm, List.filter_eq_self]
      simp
  unfold RoundTrips
  constructor
  · rintro ⟨-, hvalues⟩ name
    exact (hname name).mp (hvalues name)
  · intro hlater
    exact ⟨fun pair hpair ↦ uriDecode_uriEncode (h pair hpair).value_ne_zero,
      fun name ↦ (hname name).mpr (hlater name)⟩

/-- The query `a=1&a=`. -/
theorem not_roundTrips : ¬RoundTrips [([97], [49]), ([97], [])] := by
  rintro ⟨-, hvalues⟩
  have hread : values (queryString (queryText [([97], [49]), ([97], [])])) [97] = [[49], []] := by
    decide +kernel
  have hwanted : (valuesOf [([97], [49]), ([97], [])] [97]).filter (· ≠ []) = [[49]] := by
    decide +kernel
  have hsame := hvalues [97]
  rw [hread, hwanted] at hsame
  exact absurd hsame (by decide)

theorem roundTrips_spaced : RoundTrips [([97], [49, 32, 38]), ([98], [])] := by
  refine (roundTrips_iff ?_).mpr ?_
  · intro pair hpair
    simp only [List.mem_cons, List.not_mem_nil, or_false] at hpair
    rcases hpair with rfl | rfl
    · exact ⟨by simp, List.forall_mem_singleton.mpr (by decide), by simp⟩
    · exact ⟨by simp, List.forall_mem_singleton.mpr (by decide), by simp⟩
  · intro name value hvalue
    rw [valuesOf_cons, valuesOf_cons] at hvalue
    split_ifs at hvalue with ha hb hb
    · rw [← ha] at hb
      exact absurd hb (by decide)
    all_goals simp [valuesOf] at hvalue

end ZoneMinder.Utils
