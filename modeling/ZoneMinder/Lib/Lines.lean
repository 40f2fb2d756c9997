import ZoneMinder.Lib.Fields

namespace Lib

abbrev Line := List Char

/-- The lines, each followed by a newline. -/
def unlines (lines : List Line) : List Char := lines.flatMap (· ++ ['\n'])

/-- A text with `\r\n` replaced by `\n`, from left to right. -/
def replaceCrlf : List Char → List Char
  | [] => []
  | [c] => [c]
  | c :: d :: cs =>
    if c = '\r' ∧ d = '\n' then '\n' :: replaceCrlf cs else c :: replaceCrlf (d :: cs)

/-- A line without the carriage return that ends it. -/
def chomp : Line → Line
  | [] => []
  | [c] => if c = '\r' then [] else [c]
  | c :: d :: cs => c :: chomp (d :: cs)

section

variable {line : Line} {lines lines' : List Line}

@[simp]
theorem unlines_nil : unlines [] = [] := rfl

@[simp]
theorem unlines_cons : unlines (line :: lines) = line ++ '\n' :: unlines lines := by
  simp [unlines]

theorem chomp_cases (line : Line) : chomp line = line ∨ line = chomp line ++ ['\r'] := by
  induction line using chomp.induct with
  | case1 => exact .inl rfl
  | case2 => exact .inr rfl
  | case3 c hc => exact .inl (by simp [chomp, hc])
  | case4 c d cs ih =>
    rw [chomp]
    exact ih.imp (congrArg (c :: ·)) (congrArg (c :: ·))

theorem replaceCrlf_newline (cs : List Char) : replaceCrlf ('\n' :: cs) = '\n' :: replaceCrlf cs := by
  cases cs <;> simp [replaceCrlf]

/-- A line loses the carriage return that stands before its newline. -/
theorem replaceCrlf_line (hline : '\n' ∉ line) (cs : List Char) :
    replaceCrlf (line ++ '\n' :: cs) = chomp line ++ '\n' :: replaceCrlf cs := by
  induction line using chomp.induct with
  | case1 => exact replaceCrlf_newline cs
  | case2 => simp [replaceCrlf, chomp]
  | case3 c hc => simp [replaceCrlf, chomp, hc, replaceCrlf_newline]
  | case4 c d l ih =>
    have hd : d ≠ '\n' := by
      rintro rfl
      simp at hline
    have hl : '\n' ∉ d :: l := fun h ↦ hline (List.mem_cons_of_mem c h)
    have hrest := ih hl
    simp only [List.cons_append] at hrest
    simp [replaceCrlf, chomp, hd, hrest]

theorem replaceCrlf_unlines (h : ∀ line ∈ lines, '\n' ∉ line) :
    replaceCrlf (unlines lines) = unlines (lines.map chomp) := by
  induction lines with
  | nil => rfl
  | cons line lines ih =>
    rw [List.map_cons, unlines_cons, unlines_cons, replaceCrlf_line (h line (by simp)),
      ih fun l hl ↦ h l (by simp [hl])]

theorem splitOn_unlines (h : ∀ line ∈ lines, '\n' ∉ line) :
    (unlines lines).splitOn '\n' = lines ++ [[]] := by
  induction lines with
  | nil => simp
  | cons line lines ih =>
    rw [unlines_cons, List.splitOn_append_cons_self_of_not_mem (h line (by simp)),
      ih fun l hl ↦ h l (by simp [hl])]
    rfl

theorem unlines_inj (h : ∀ line ∈ lines, '\n' ∉ line) (h' : ∀ line ∈ lines', '\n' ∉ line)
    (heq : unlines lines = unlines lines') : lines = lines' := by
  have hsplit := congrArg (List.splitOn '\n') heq
  rw [splitOn_unlines h, splitOn_unlines h'] at hsplit
  exact List.append_cancel_right hsplit

theorem intercalate_newline (h : lines ≠ []) :
    ['\n'].intercalate lines ++ ['\n'] = unlines lines := by
  induction lines with
  | nil => exact absurd rfl h
  | cons line lines ih =>
    cases lines with
    | nil => simp
    | cons line' lines =>
      rw [unlines_cons, ← ih (by simp), List.intercalate_cons_cons]
      simp

end

end Lib
