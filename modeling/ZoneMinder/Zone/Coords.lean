import Mathlib.Data.List.TakeWhile
import ZoneMinder.Poly.Polygon

namespace ZoneMinder.Zone

open ZoneMinder.Poly

/-- A pointer into a C string, as the characters from it to the NUL. -/
abbrev CString := List Char

/-- A pointer moved on; none is past the NUL. -/
def advance (str : CString) (n : ℕ) : Option CString :=
  if n ≤ str.length then some (str.drop n) else none

/-- none is the null pointer. -/
def strchr (str : CString) (c : Char) : Option CString :=
  match str.dropWhile (· ≠ c) with
  | [] => none
  | found => some found

def isSpace (c : Char) : Bool := c == ' ' || decide ('\t' ≤ c ∧ c ≤ '\r')

/-- strtol to base ten, which stops at its limits, cut to 32 bits. -/
def atoi (str : CString) : ℤ :=
  let digits (str : CString) : ℤ :=
    (str.takeWhile Char.isDigit).foldl (fun n c ↦ 10 * n + (c.toNat - '0'.toNat : ℕ)) 0
  let number : ℤ :=
    match str.dropWhile isSpace with
    | '-' :: str => -digits str
    | '+' :: str => digits str
    | str => digits str
  (max (-2 ^ 63) (min number (2 ^ 63 - 1))).bmod (2 ^ 32)

section

variable {str cp before after y next : CString} {c d : Char} {n : ℕ}

theorem strchr_eq_none : strchr str c = none ↔ c ∉ str := by
  unfold strchr
  split
  case h_1 h =>
    refine iff_of_true rfl fun hmem ↦ ?_
    exact absurd (List.dropWhile_eq_nil_iff.mp h c hmem) (by simp)
  case h_2 found hne =>
    refine iff_of_false (Option.some_ne_none _) fun hmem ↦ hne ?_
    refine List.dropWhile_eq_nil_iff.mpr fun d hd ↦ decide_eq_true ?_
    rintro rfl
    exact hmem hd

theorem strchr_append (h : c ∉ before) : strchr (before ++ c :: after) c = some (c :: after) := by
  have hall : ∀ d ∈ before, decide (d ≠ c) = true := by
    intro d hd
    refine decide_eq_true ?_
    rintro rfl
    exact h hd
  rw [strchr, List.dropWhile_append_of_pos hall]
  simp

theorem advance_cons : advance (c :: after) (n + 1) = advance after n := by
  simp only [advance, List.length_cons, Nat.add_le_add_iff_right, List.drop_succ_cons]

theorem advance_zero : advance str 0 = some str := by
  rw [advance, if_pos (Nat.zero_le _), List.drop_zero]

end

section

variable (vertex : CString → CString → Vector2) (str : CString)

/-- One round of the loop of the parsers: the vertex at `str`, and where it goes on unless it
breaks. -/
def readVertex : Option (List Vector2 × Option CString) :=
  match strchr str ',' with
  | none => some ([], none)
  | some cp => do
    let y ← advance cp 1
    let after ← advance cp 2
    match strchr after ' ' with
    | none => some ([vertex str y], none)
    | some ws => do
      let next ← advance ws 1
      some ([vertex str y], some next)

end

/-- The four ways in which a round ends. -/
theorem readVertex_cases (vertex : CString → CString → Vector2) (str : CString) :
    ',' ∉ str ∧ readVertex vertex str = some ([], none) ∨
    (∃ before, ',' ∉ before ∧ str = before ++ [','] ∧ readVertex vertex str = none) ∨
    (∃ before c y, ',' ∉ before ∧ ' ' ∉ y ∧ str = before ++ ',' :: c :: y ∧
      readVertex vertex str = some ([vertex str (c :: y)], none)) ∨
    ∃ before c y next, ',' ∉ before ∧ ' ' ∉ y ∧ str = before ++ ',' :: c :: (y ++ ' ' :: next) ∧
      readVertex vertex str = some ([vertex str (c :: (y ++ ' ' :: next))], some next) := by
  by_cases hcomma : ',' ∈ str
  · right
    obtain ⟨before, after, rfl, hbefore⟩ := List.eq_append_cons_of_mem hcomma
    cases after with
    | nil =>
      refine Or.inl ⟨before, hbefore, rfl, ?_⟩
      simp [readVertex, strchr_append hbefore, advance]
    | cons c after =>
      right
      by_cases hblank : ' ' ∈ after
      · right
        obtain ⟨y, next, rfl, hy⟩ := List.eq_append_cons_of_mem hblank
        refine ⟨before, c, y, next, hbefore, hy, rfl, ?_⟩
        simp [readVertex, strchr_append hbefore, advance_cons, advance_zero, strchr_append hy]
      · refine Or.inl ⟨before, c, after, hbefore, hblank, rfl, ?_⟩
        simp [readVertex, strchr_append hbefore, advance_cons, advance_zero, strchr_eq_none.mpr hblank]
  · refine Or.inl ⟨hcomma, ?_⟩
    rw [readVertex, strchr_eq_none.mpr hcomma]

theorem readVertex_length {vertex : CString → CString → Vector2} {str next : CString}
    {vs : List Vector2} (h : readVertex vertex str = some (vs, some next)) :
    next.length < str.length := by
  obtain ⟨-, hr⟩ | ⟨_, -, -, hr⟩ | ⟨_, _, _, -, -, -, hr⟩ | ⟨before, c, y, next', -, -, rfl, hr⟩ :=
    readVertex_cases vertex str
  · rw [hr] at h
    cases h
  · rw [hr] at h
    cases h
  · rw [hr] at h
    cases h
  · rw [hr] at h
    cases h
    simp only [List.length_append, List.length_cons]
    omega

/-- The loop of both parsers; none when a pointer passes the NUL. -/
def coordinates (vertex : CString → CString → Vector2) (str : CString) : Option (List Vector2) :=
  if str.isEmpty then some []
  else
    match _h : readVertex vertex str with
    | none => none
    | some (vs, none) => some vs
    | some (vs, some next) => (coordinates vertex next).map (vs ++ ·)
termination_by str.length
decreasing_by exact readVertex_length _h

/-- `std::clamp`. -/
def clamp (v lo hi : ℤ) : ℤ := if v < lo then lo else if hi < v then hi else v

/-- What it leaves in its argument, and what it returns. -/
def parsePolygonString (str : CString) (polygon : Polygon) : Option (Bool × Polygon) :=
  (coordinates (fun x y ↦ ⟨atoi x, atoi y⟩) str).map fun vertices ↦
    (!vertices.isEmpty, if 2 < vertices.length then .ofVertices vertices else polygon)

/-- `percent` is the number at a pointer taken as the percentage of a length: `strtod`, the product
and the rounding to an int32. -/
def parsePercentagePolygon (percent : CString → ℕ → ℤ) (str : CString) (width height : ℕ)
    (polygon : Polygon) : Option (Bool × Polygon) :=
  (coordinates (fun x y ↦
      ⟨clamp (percent x width) 0 (width - 1), clamp (percent y height) 0 (height - 1)⟩) str).map
    fun vertices ↦ if 2 < vertices.length then (true, .ofVertices vertices) else (false, polygon)

/-- The strings of which the parsers come to a last piece with a comma at its end and none before.
A piece ends at the first blank that is two places or more after its first comma. -/
inductive EndsInComma : CString → Prop
  | last {before : CString} : ',' ∉ before → EndsInComma (before ++ [','])
  | piece {before y next : CString} {c : Char} : ',' ∉ before → ' ' ∉ y → EndsInComma next →
      EndsInComma (before ++ ',' :: c :: (y ++ ' ' :: next))

section

variable {vertex : CString → CString → Vector2} {str : CString}

theorem coordinates_eq (h : str ≠ []) : coordinates vertex str =
    match readVertex vertex str with
    | none => none
    | some (vs, none) => some vs
    | some (vs, some next) => (coordinates vertex next).map (vs ++ ·) := by
  rw [coordinates, if_neg (by simpa using h)]
  split <;> simp_all

theorem coordinates_eq_none_of (h : EndsInComma str) : coordinates vertex str = none := by
  induction h with
  | @last before hbefore =>
    have hread : readVertex vertex (before ++ [',']) = none := by
      simp [readVertex, strchr_append hbefore, advance]
    rw [coordinates_eq (by simp), hread]
  | @piece before y next c hbefore hy _ ih =>
    have hread : readVertex vertex (before ++ ',' :: c :: (y ++ ' ' :: next)) =
        some ([vertex (before ++ ',' :: c :: (y ++ ' ' :: next)) (c :: (y ++ ' ' :: next))],
          some next) := by
      simp [readVertex, strchr_append hbefore, advance_cons, advance_zero, strchr_append hy]
    rw [coordinates_eq (by simp), hread]
    simp [ih]

theorem endsInComma_of_none (h : coordinates vertex str = none) : EndsInComma str := by
  induction hlen : str.length using Nat.strong_induction_on generalizing str with
  | _ n ih =>
    by_cases hnil : str = []
    · rw [hnil, coordinates] at h
      exact absurd h (Option.some_ne_none _)
    rw [coordinates_eq hnil] at h
    obtain ⟨-, hr⟩ | ⟨before, hbefore, rfl, hr⟩ | ⟨_, _, _, -, -, -, hr⟩ |
      ⟨before, c, y, next, hbefore, hy, hstr, hr⟩ := readVertex_cases vertex str
    · rw [hr] at h
      exact absurd h (Option.some_ne_none _)
    · exact .last hbefore
    · rw [hr] at h
      exact absurd h (Option.some_ne_none _)
    · have hshort := readVertex_length hr
      rw [hr] at h
      rw [hstr]
      exact .piece hbefore hy (ih _ (hlen ▸ hshort) (Option.map_eq_none_iff.mp h) rfl)

theorem isSome_coordinates : (coordinates vertex str).isSome ↔ ¬ EndsInComma str := by
  rw [← Option.ne_none_iff_isSome, not_iff_not]
  exact ⟨endsInComma_of_none, coordinates_eq_none_of⟩

/-- Exactly when the parsers stay inside the string. -/
theorem parse_inside_iff (percent : CString → ℕ → ℤ) (str : CString) (width height : ℕ)
    (polygon : Polygon) :
    ((parsePolygonString str polygon).isSome ↔ ¬ EndsInComma str) ∧
      ((parsePercentagePolygon percent str width height polygon).isSome ↔ ¬ EndsInComma str) := by
  rw [parsePolygonString, parsePercentagePolygon, Option.isSome_map, Option.isSome_map]
  exact ⟨isSome_coordinates, isSome_coordinates⟩

/-- A comma that nothing follows. -/
theorem parse_not_inside :
    ¬ ((parsePolygonString "1,".toList {}).isSome ∧
      (parsePercentagePolygon (fun _ _ ↦ 0) "1,".toList 640 480 {}).isSome) := by
  have hends : EndsInComma "1,".toList := @EndsInComma.last ['1'] (by decide)
  rw [parsePolygonString, Option.isSome_map, isSome_coordinates]
  exact fun h ↦ h.1 hends

end

end ZoneMinder.Zone
