import ZoneMinder.Lib.Lines
import ZoneMinder.Php

namespace ZoneMinder.CronTab

open Lib

/-- `ZM_CRONTAB_BEGIN` -/
def beginMarker : Line :=
  "# BEGIN ZoneMinder scheduled actions - do not edit, managed by ZoneMinder".toList

/-- `ZM_CRONTAB_END` -/
def endMarker : Line := "# END ZoneMinder scheduled actions".toList

def isBegin (line : Line) : Bool := Php.trim line = beginMarker

def isEnd (line : Line) : Bool := Php.trim line = endMarker

def blank (line : Line) : Bool := Php.trim line = []

structure Scan where
  before : List Line := []
  after : List Line := []
  seenBegin : Bool := false
  seenEnd : Bool := false

/-- The loop over the lines; what stands inside our block is dropped, whatever it says. -/
def scanLine (s : Scan) (line : Line) : Scan :=
  if !s.seenBegin && isBegin line then { s with seenBegin := true }
  else if s.seenBegin && !s.seenEnd then if isEnd line then { s with seenEnd := true } else s
  else if s.seenBegin then { s with after := s.after ++ [line] }
  else { s with before := s.before ++ [line] }

/-- What is kept before and after the block; where its end is missing, all but its beginnings. -/
def surroundings (existing : List Line) : List Line × List Line :=
  let s := existing.foldl scanLine {}
  if s.seenBegin && !s.seenEnd then (existing.filter (fun l ↦ !isBegin l), [])
  else (s.before, s.after)

/-- The block, a blank line above it where there is something above. -/
def block (before lines : List Line) : List Line :=
  if lines = [] then []
  else (if before = [] then [] else [[]]) ++ beginMarker :: (lines ++ [endMarker])

def spliceLines (existing lines : List Line) : List Line :=
  let (before, after) := surroundings existing
  let before := before.rdropWhile blank
  let after := after.dropWhile blank
  (before ++ block before lines ++ after).rdropWhile blank

def cronSpliceBlock (existing : List Char) (lines : List Line) : List Char :=
  let out := spliceLines ((replaceCrlf existing).splitOn '\n') lines
  if out = [] then [] else ['\n'].intercalate out ++ ['\n']

/-- Lines that may stand in the block. -/
def Body (lines : List Line) : Prop :=
  ∀ line ∈ lines, isBegin line = false ∧ isEnd line = false ∧ '\n' ∉ line

/-- The lines that no beginning and its end enclose, without the beginnings. The lines since the
last beginning are held back: what ends them takes them away, what does not gives them back. -/
def outside : Option (List Line) → List Line → List Line
  | none, [] => []
  | some held, [] => held
  | none, line :: lines =>
    if isBegin line then outside (some []) lines else line :: outside none lines
  | some held, line :: lines =>
    if isBegin line then held ++ outside (some []) lines
    else if isEnd line then outside none lines
    else outside (some (held ++ [line])) lines

/-- What the beginnings that have an end enclose with it. -/
def blocks : Option (List Line) → List Line → List (List Line)
  | _, [] => []
  | none, line :: lines => blocks (if isBegin line then some [] else none) lines
  | some held, line :: lines =>
    if isBegin line then blocks (some []) lines
    else if isEnd line then held :: blocks none lines
    else blocks (some (held ++ [line])) lines

def theirs (line : Line) : Bool := !blank line && !isBegin line && !isEnd line

/-- The lines that belong to somebody else. -/
def preserved (existing : List Line) : List Line := (outside none existing).filter theirs

structure Sections where
  before : List Line
  body : List Line
  after : List Line

/-- The text cut at its first beginning and at the first end after it, where it has both. -/
def sections (existing : List Line) : Sections :=
  let rest := (existing.dropWhile (fun l ↦ !isBegin l)).tail
  if rest.any isEnd then
    ⟨existing.takeWhile (fun l ↦ !isBegin l), rest.takeWhile (fun l ↦ !isEnd l),
      (rest.dropWhile (fun l ↦ !isEnd l)).tail⟩
  else ⟨existing.filter (fun l ↦ !isBegin l), [], []⟩

/-- What stands around the block, without the blank lines next to it and at the end. -/
def Sections.kept (s : Sections) : List Line :=
  (s.before.rdropWhile blank ++ s.after.dropWhile blank).rdropWhile blank

/-- Nothing of somebody else's stands between a beginning that is not ended and the next one, the
block is the only one, and no line around it ends in a carriage return. -/
structure Sole (existing : List Line) : Prop where
  body : ∀ p b q, (sections existing).body = p ++ b :: q → isBegin b = true →
    ∀ line ∈ p, isBegin line = true ∨ blank line = true
  after : ∀ line ∈ (sections existing).after, isBegin line = false
  chomped : ∀ line ∈ (sections existing).kept, chomp line = line

/-- The four properties of the splice. -/
structure Preserving (existing : List Char) : Prop where
  again : ∀ lines, Body lines →
    cronSpliceBlock (cronSpliceBlock existing lines) lines = cronSpliceBlock existing lines
  replace : ∀ lines lines', Body lines → Body lines' → lines ≠ [] → lines' ≠ [] →
    cronSpliceBlock (cronSpliceBlock existing lines) lines' = cronSpliceBlock existing lines'
  blocks : ∀ lines, Body lines →
    blocks none ((cronSpliceBlock existing lines).splitOn '\n') =
      if lines = [] then [] else [lines]
  preserved : ∀ lines, Body lines →
    preserved ((replaceCrlf (cronSpliceBlock existing lines)).splitOn '\n') =
      preserved ((replaceCrlf existing).splitOn '\n')

section Scan

variable {s : Scan} {lines existing body after : List Line} {b n : Line}

theorem foldl_before (hs : s.seenBegin = false) (h : ∀ l ∈ lines, isBegin l = false) :
    lines.foldl scanLine s = { s with before := s.before ++ lines } := by
  induction lines generalizing s with
  | nil => simp
  | cons l lines ih =>
    have hl : scanLine s l = { s with before := s.before ++ [l] } := by
      simp [scanLine, hs, h l]
    have hrest := @ih { s with before := s.before ++ [l] } hs fun l' hl' ↦ h l' (by simp [hl'])
    rw [List.foldl_cons, hl, hrest]
    simp

theorem foldl_inside (hs : s.seenBegin = true) (hs' : s.seenEnd = false)
    (h : ∀ l ∈ lines, isEnd l = false) : lines.foldl scanLine s = s := by
  induction lines with
  | nil => rfl
  | cons l lines ih =>
    have hl : scanLine s l = s := by
      simp [scanLine, hs, hs', h l]
    rw [List.foldl_cons, hl, ih fun l' hl' ↦ h l' (by simp [hl'])]

theorem foldl_after (hs : s.seenBegin = true) (hs' : s.seenEnd = true) :
    lines.foldl scanLine s = { s with after := s.after ++ lines } := by
  induction lines generalizing s with
  | nil => simp
  | cons l lines ih =>
    have hl : scanLine s l = { s with after := s.after ++ [l] } := by
      simp [scanLine, hs, hs']
    have hrest := @ih { s with after := s.after ++ [l] } hs hs'
    rw [List.foldl_cons, hl, hrest]
    simp

/-- The text has no beginning, one that is never ended, or a first block. -/
theorem sections_cases (existing : List Line) :
    (sections existing = ⟨existing.filter (fun l ↦ !isBegin l), [], []⟩ ∧
      ∃ before rest, existing = before ++ rest ∧ (∀ l ∈ before, isBegin l = false) ∧
        (rest = [] ∨ ∃ b lines, rest = b :: lines ∧ isBegin b = true ∧
          ∀ l ∈ lines, isEnd l = false)) ∨
    ∃ b n, existing = (sections existing).before ++ b :: ((sections existing).body ++
        n :: (sections existing).after) ∧ isBegin b = true ∧ isEnd n = true ∧
      (∀ l ∈ (sections existing).before, isBegin l = false) ∧
      ∀ l ∈ (sections existing).body, isEnd l = false := by
  have hbefore : ∀ l ∈ existing.takeWhile (fun l ↦ !isBegin l), isBegin l = false := by
    intro l hl
    simpa using List.mem_takeWhile_imp hl
  have hsplit := List.takeWhile_append_dropWhile (p := fun l ↦ !isBegin l) (l := existing)
  cases hrest : existing.dropWhile (fun l ↦ !isBegin l) with
  | nil =>
    rw [hrest] at hsplit
    refine .inl ⟨by simp [sections, hrest], _, [], hsplit.symm, hbefore, .inl rfl⟩
  | cons b rest =>
    rw [hrest] at hsplit
    have hb : isBegin b = true := by
      have hne := List.head_dropWhile_not (fun l ↦ !isBegin l) (l := existing) (by simp [hrest])
      simpa [hrest] using hne
    cases hany : rest.any isEnd with
    | false =>
      refine .inl ⟨by simp [sections, hrest, hany], _, b :: rest, hsplit.symm, hbefore,
        .inr ⟨b, rest, rfl, hb, ?_⟩⟩
      simpa using hany
    | true =>
      have hbody := List.takeWhile_append_dropWhile (p := fun l ↦ !isEnd l) (l := rest)
      cases hlast : rest.dropWhile (fun l ↦ !isEnd l) with
      | nil =>
        obtain ⟨n, hn, hn'⟩ := List.any_eq_true.mp hany
        have hnot := List.dropWhile_eq_nil_iff.mp hlast n hn
        simp [hn'] at hnot
      | cons n after =>
        have hn : isEnd n = true := by
          have hne := List.head_dropWhile_not (fun l ↦ !isEnd l) (l := rest) (by simp [hlast])
          simpa [hlast] using hne
        have hsections : sections existing = ⟨existing.takeWhile (fun l ↦ !isBegin l),
            rest.takeWhile (fun l ↦ !isEnd l), after⟩ := by
          simp [sections, hrest, hany, hlast]
        rw [hlast] at hbody
        refine .inr ⟨b, n, ?_, hb, hn, ?_, ?_⟩
        · rw [hsections, hbody, hsplit]
        · rw [hsections]
          exact hbefore
        · rw [hsections]
          intro l hl
          simpa using List.mem_takeWhile_imp hl

theorem surroundings_eq (existing : List Line) :
    surroundings existing = ((sections existing).before, (sections existing).after) := by
  rcases sections_cases existing with ⟨hsections, before, rest, hexisting, hbefore, hrest⟩ |
    ⟨b, n, hexisting, hb, hn, hbefore, hbody⟩
  · rw [hsections]
    rcases hrest with rfl | ⟨b, lines, rfl, hb, hlines⟩
    · rw [List.append_nil] at hexisting
      subst hexisting
      have hfilter : existing.filter (fun l ↦ !isBegin l) = existing :=
        List.filter_eq_self.mpr fun l hl ↦ by simp [hbefore l hl]
      have hfold : existing.foldl scanLine {} = { before := existing } := foldl_before rfl hbefore
      simp [surroundings, hfold, hfilter]
    · have hfold : existing.foldl scanLine {} = { before, seenBegin := true } := by
        have hstep : scanLine { before } b = { before, seenBegin := true } := by
          simp [scanLine, hb]
        have hfirst : before.foldl scanLine {} = { before } := foldl_before rfl hbefore
        rw [hexisting, List.foldl_append, hfirst, List.foldl_cons, hstep,
          foldl_inside rfl rfl hlines]
      simp [surroundings, hfold]
  · generalize sections existing = sections at *
    obtain ⟨before, body, after⟩ := sections
    have hfold : existing.foldl scanLine {} =
        { before, after, seenBegin := true, seenEnd := true } := by
      have hfirst : before.foldl scanLine {} = { before } := foldl_before rfl hbefore
      have hstep : scanLine { before } b = { before, seenBegin := true } := by
        simp [scanLine, hb]
      have hstep' : scanLine { before, seenBegin := true } n =
          { before, seenBegin := true, seenEnd := true } := by
        simp [scanLine, hn]
      rw [hexisting, List.foldl_append, hfirst, List.foldl_cons, hstep, List.foldl_append,
        foldl_inside rfl rfl hbody, List.foldl_cons, hstep', foldl_after rfl rfl]
      rfl
    simp [surroundings, hfold]

end Scan

end ZoneMinder.CronTab
