import ZoneMinder.CronTab.Splice

namespace ZoneMinder.CronTab

open Lib

section Markers

variable {line : Line}

@[simp]
theorem isBegin_beginMarker : isBegin beginMarker = true := by decide

@[simp]
theorem isEnd_endMarker : isEnd endMarker = true := by decide

@[simp]
theorem blank_nil : blank [] = true := rfl

theorem isEnd_of_isBegin (h : isBegin line = true) : isEnd line = false := by
  simp only [isBegin, isEnd, decide_eq_true_eq, decide_eq_false_iff_not] at h ⊢
  rw [h]
  decide

theorem isBegin_of_isEnd (h : isEnd line = true) : isBegin line = false := by
  cases hb : isBegin line with
  | false => rfl
  | true => simp [isEnd_of_isBegin hb] at h

theorem isBegin_of_blank (h : blank line = true) : isBegin line = false := by
  simp only [isBegin, blank, decide_eq_true_eq, decide_eq_false_iff_not] at h ⊢
  rw [h]
  decide

theorem not_blank_endMarker : ¬blank endMarker = true := by decide

theorem chomp_beginMarker : chomp beginMarker = beginMarker := by decide

theorem chomp_endMarker : chomp endMarker = endMarker := by decide

theorem notMem_beginMarker : '\n' ∉ beginMarker := by decide

theorem notMem_endMarker : '\n' ∉ endMarker := by decide

theorem trim_chomp (line : Line) : Php.trim (chomp line) = Php.trim line := by
  rcases chomp_cases line with h | h
  · rw [h]
  · conv_rhs => rw [h]
    have htrim := @trim_append _ Php.trimmed (chomp line) [] ['\r'] (by simp)
      (by simp [Php.trimmed])
    exact htrim.symm

@[simp]
theorem isBegin_chomp (line : Line) : isBegin (chomp line) = isBegin line := by
  rw [isBegin, isBegin, trim_chomp]

@[simp]
theorem isEnd_chomp (line : Line) : isEnd (chomp line) = isEnd line := by
  rw [isEnd, isEnd, trim_chomp]

@[simp]
theorem blank_chomp (line : Line) : blank (chomp line) = blank line := by
  rw [blank, blank, trim_chomp]

end Markers

section Lists

variable {lines held body after : List Line} {b n : Line}

theorem sections_of_split (hlines : ∀ l ∈ lines, isBegin l = false) (hb : isBegin b = true)
    (hbody : ∀ l ∈ body, isEnd l = false) (hn : isEnd n = true) :
    sections (lines ++ b :: (body ++ n :: after)) = ⟨lines, body, after⟩ := by
  have hlines' : ∀ l ∈ lines, (!isBegin l) = true := by simpa using hlines
  have hbody' : ∀ l ∈ body, (!isEnd l) = true := by simpa using hbody
  simp [sections, List.takeWhile_append_of_pos hlines', List.dropWhile_append_of_pos hlines',
    List.takeWhile_append_of_pos hbody', List.dropWhile_append_of_pos hbody', hb, hn]

theorem sections_of_none (h : ∀ l ∈ lines, isBegin l = false) :
    sections lines = ⟨lines, [], []⟩ := by
  have hdrop : lines.dropWhile (fun l ↦ !isBegin l) = [] :=
    List.dropWhile_eq_nil_iff.mpr fun l hl ↦ by simp [h l hl]
  have hfilter : lines.filter (fun l ↦ !isBegin l) = lines :=
    List.filter_eq_self.mpr fun l hl ↦ by simp [h l hl]
  simp [sections, hdrop, hfilter]

theorem blocks_append (h : ∀ l ∈ lines, isBegin l = false) (after : List Line) :
    blocks none (lines ++ after) = blocks none after := by
  induction lines with
  | nil => rfl
  | cons l lines ih =>
    rw [List.cons_append, blocks, h l (by simp)]
    exact ih fun l' hl' ↦ h l' (by simp [hl'])

theorem blocks_of_none (h : ∀ l ∈ lines, isBegin l = false) : blocks none lines = [] := by
  have hblocks := blocks_append h []
  rwa [List.append_nil] at hblocks

theorem blocks_body (hbody : ∀ l ∈ body, isBegin l = false ∧ isEnd l = false)
    (hn : isEnd n = true) (held after : List Line) :
    blocks (some held) (body ++ n :: after) = (held ++ body) :: blocks none after := by
  induction body generalizing held with
  | nil => simp [blocks, isBegin_of_isEnd hn, hn]
  | cons l body ih =>
    obtain ⟨hl, hl'⟩ := hbody l (by simp)
    rw [List.cons_append, blocks, hl, hl', if_neg Bool.false_ne_true, if_neg Bool.false_ne_true,
      ih fun l' hl' ↦ hbody l' (by simp [hl'])]
    simp

theorem blocks_ne_nil (hn : isEnd n = true) (held body after : List Line) :
    blocks (some held) (body ++ n :: after) ≠ [] := by
  induction body generalizing held with
  | nil => simp [blocks, isBegin_of_isEnd hn, hn]
  | cons l body ih =>
    rw [List.cons_append, blocks]
    split_ifs
    · exact ih []
    · simp
    · exact ih (held ++ [l])

theorem blocks_map_chomp (held : Option (List Line)) (lines : List Line) :
    blocks (held.map (List.map chomp)) (lines.map chomp) =
      (blocks held lines).map (List.map chomp) := by
  induction lines generalizing held with
  | nil => cases held <;> rfl
  | cons l lines ih =>
    cases held with
    | none =>
      rw [Option.map_none, List.map_cons, blocks, blocks, isBegin_chomp, ← ih]
      cases isBegin l <;> rfl
    | some held =>
      rw [Option.map_some, List.map_cons, blocks, blocks, isBegin_chomp, isEnd_chomp]
      have hempty := ih (some [])
      have hnone := ih none
      have hheld := ih (some (held ++ [l]))
      simp only [Option.map_some, Option.map_none, List.map_nil, List.map_append,
        List.map_cons] at hempty hnone hheld
      split_ifs
      · exact hempty
      · rw [hnone, List.map_cons]
      · exact hheld

theorem outside_append (h : ∀ l ∈ lines, isBegin l = false) (after : List Line) :
    outside none (lines ++ after) = lines ++ outside none after := by
  induction lines with
  | nil => rfl
  | cons l lines ih =>
    rw [List.cons_append, outside, h l (by simp), if_neg Bool.false_ne_true,
      ih fun l' hl' ↦ h l' (by simp [hl']), List.cons_append]

theorem outside_of_none (h : ∀ l ∈ lines, isBegin l = false) : outside none lines = lines := by
  have houtside := outside_append h []
  rwa [List.append_nil, outside, List.append_nil] at houtside

theorem outside_open (h : ∀ l ∈ lines, isEnd l = false) (held : List Line) :
    outside (some held) lines = held ++ lines.filter (fun l ↦ !isBegin l) := by
  induction lines generalizing held with
  | nil => simp [outside]
  | cons l lines ih =>
    have hrest := ih fun l' hl' ↦ h l' (by simp [hl'])
    rw [outside, h l (by simp), hrest, hrest]
    cases hl : isBegin l <;> simp [hl]

/-- What the beginnings in a body give back that are not ended. -/
def orphaned : List Line → List Line → List Line
  | _, [] => []
  | held, line :: lines =>
    if isBegin line then held ++ orphaned [] lines else orphaned (held ++ [line]) lines

theorem outside_body (hbody : ∀ l ∈ body, isEnd l = false) (hn : isEnd n = true)
    (held after : List Line) :
    outside (some held) (body ++ n :: after) = orphaned held body ++ outside none after := by
  induction body generalizing held with
  | nil => simp [outside, orphaned, isBegin_of_isEnd hn, hn]
  | cons l body ih =>
    have hrest := ih fun l' hl' ↦ hbody l' (by simp [hl'])
    rw [List.cons_append, outside, hbody l (by simp), if_neg Bool.false_ne_true, hrest, hrest,
      orphaned]
    split_ifs <;> simp

theorem mem_orphaned {line : Line} : line ∈ orphaned held body ↔
    ∃ p b q, body = p ++ b :: q ∧ isBegin b = true ∧
      (line ∈ held ∨ line ∈ p ∧ isBegin line = false) := by
  induction body generalizing held with
  | nil => simp [orphaned]
  | cons l body ih =>
    rw [orphaned]
    cases hl : isBegin l with
    | true =>
      rw [if_pos rfl, List.mem_append, ih]
      constructor
      · rintro (hline | ⟨p, b, q, rfl, hb, hline⟩)
        · exact ⟨[], l, body, rfl, hl, .inl hline⟩
        · refine ⟨l :: p, b, q, rfl, hb, .inr ?_⟩
          have hp := hline.resolve_left List.not_mem_nil
          exact ⟨List.mem_cons_of_mem l hp.1, hp.2⟩
      · rintro ⟨p, b, q, heq, hb, hline⟩
        rcases hline with hline | ⟨hline, hnot⟩
        · exact .inl hline
        · cases p with
          | nil => cases hline
          | cons l' p =>
            obtain ⟨rfl, rfl⟩ := List.cons.inj heq
            rcases List.mem_cons.mp hline with rfl | hline
            · rw [hl] at hnot
              cases hnot
            · exact .inr ⟨p, b, q, rfl, hb, .inr ⟨hline, hnot⟩⟩
    | false =>
      rw [if_neg Bool.false_ne_true, ih]
      constructor
      · rintro ⟨p, b, q, rfl, hb, hline⟩
        refine ⟨l :: p, b, q, rfl, hb, ?_⟩
        rcases hline with hline | ⟨hline, hnot⟩
        · rcases List.mem_append.mp hline with hline | hline
          · exact .inl hline
          · obtain rfl := List.mem_singleton.mp hline
            exact .inr ⟨List.mem_cons_self, hl⟩
        · exact .inr ⟨List.mem_cons_of_mem l hline, hnot⟩
      · rintro ⟨p, b, q, heq, hb, hline⟩
        cases p with
        | nil =>
          obtain ⟨rfl, rfl⟩ := List.cons.inj heq
          rw [hl] at hb
          cases hb
        | cons l' p =>
          obtain ⟨rfl, rfl⟩ := List.cons.inj heq
          refine ⟨p, b, q, rfl, hb, ?_⟩
          rcases hline with hline | ⟨hline, hnot⟩
          · exact .inl (List.mem_append_left _ hline)
          · rcases List.mem_cons.mp hline with rfl | hline
            · exact .inl (List.mem_append_right _ (List.mem_singleton.mpr rfl))
            · exact .inr ⟨hline, hnot⟩

end Lists

section Splice

variable {existing lines lines' : List Line}

/-- What is written before the block. -/
def head (existing : List Line) : List Line := (sections existing).before.rdropWhile blank

/-- What is written after it. -/
def rest (existing : List Line) : List Line := trim blank (sections existing).after

theorem kept_eq (existing : List Line) :
    (sections existing).kept = head existing ++ rest existing := by
  rw [Sections.kept, head, rest, trim]
  cases hafter : (sections existing).after.dropWhile blank with
  | nil => simp [List.rdropWhile_idempotent]
  | cons l after =>
    have hl : ¬blank l = true := by
      have hnot := List.head_dropWhile_not blank (l := (sections existing).after) (by simp [hafter])
      simpa [hafter] using hnot
    have hhead := @rdropWhile_append_cons _ blank [] after l hl
    rw [List.nil_append, List.nil_append] at hhead
    rw [rdropWhile_append_cons hl, hhead]

theorem spliceLines_eq (existing lines : List Line) :
    spliceLines existing lines = head existing ++ block (head existing) lines ++ rest existing := by
  rw [spliceLines, surroundings_eq]
  change (head existing ++ block (head existing) lines ++
    (sections existing).after.dropWhile blank).rdropWhile blank = _
  by_cases hlines : lines = []
  · simp only [block, if_pos hlines, List.append_nil]
    exact kept_eq existing
  · have hassoc (after : List Line) : head existing ++ block (head existing) lines ++ after =
        (head existing ++ (if head existing = [] then [] else [[]]) ++ beginMarker :: lines) ++
          endMarker :: after := by
      simp [block, hlines]
    rw [hassoc, hassoc, rdropWhile_append_cons not_blank_endMarker]
    rfl

theorem isBegin_head (existing : List Line) : ∀ l ∈ head existing, isBegin l = false := by
  intro l hl
  have hmem := (List.rdropWhile_prefix blank _).subset hl
  rcases sections_cases existing with ⟨hsections, -⟩ | ⟨b, n, -, -, -, hbefore, -⟩
  · rw [hsections] at hmem
    simpa using (List.mem_filter.mp hmem).2
  · exact hbefore l hmem

theorem isBegin_rest (hafter : ∀ l ∈ (sections existing).after, isBegin l = false) :
    ∀ l ∈ rest existing, isBegin l = false := fun l hl ↦ hafter l (mem_of_mem_trim hl)

/-- Where the surroundings are the same, the same is written. -/
theorem spliceLines_congr {existing' : List Line} (hhead : head existing' = head existing)
    (hrest : rest existing' = rest existing) (lines : List Line) :
    spliceLines existing' lines = spliceLines existing lines := by
  rw [spliceLines_eq, spliceLines_eq, hhead, hrest]

/-- The lines of a text that has been written. -/
def reread (out : List Line) : List Line := out.map chomp ++ [[]]

theorem isBegin_reread (h : ∀ l ∈ lines, isBegin l = false) :
    ∀ l ∈ reread lines, isBegin l = false := by
  intro l hl
  rcases List.mem_append.mp hl with hl | hl
  · obtain ⟨l', hl', rfl⟩ := List.mem_map.mp hl
    rw [isBegin_chomp]
    exact h l' hl'
  · rw [List.mem_singleton.mp hl]
    decide

theorem rdropWhile_reread (lines : List Line) :
    (reread lines).rdropWhile blank = (lines.rdropWhile blank).map chomp := by
  have hdrop : (reread lines).rdropWhile blank = (lines.map chomp).rdropWhile blank :=
    rdropWhile_append_of_all (by simp)
  have hblank : blank ∘ chomp = blank := funext blank_chomp
  rw [hdrop, List.rdropWhile, ← List.map_reverse, List.dropWhile_map, hblank, ← List.map_reverse]
  rfl

theorem sections_reread (hafter : ∀ l ∈ (sections existing).after, isBegin l = false) :
    sections (reread (spliceLines existing [])) =
      ⟨reread (spliceLines existing []), [], []⟩ := by
  refine sections_of_none (isBegin_reread ?_)
  rw [spliceLines_eq, block, if_pos rfl, List.append_nil]
  intro l hl
  rcases List.mem_append.mp hl with hl | hl
  · exact isBegin_head existing l hl
  · exact isBegin_rest hafter l hl

/-- Once the block is gone, a write only takes carriage returns away. -/
theorem spliceLines_reread_nil
    (hafter : ∀ l ∈ (sections existing).after, isBegin l = false) :
    spliceLines (reread (spliceLines existing [])) [] = (spliceLines existing []).map chomp := by
  have hkept : spliceLines existing [] = (sections existing).kept := by
    rw [kept_eq, spliceLines_eq, block, if_pos rfl, List.append_nil]
  have hhead : head (reread (spliceLines existing [])) = (spliceLines existing []).map chomp := by
    rw [head, sections_reread hafter, rdropWhile_reread, hkept, Sections.kept,
      List.rdropWhile_idempotent]
  have hrest : rest (reread (spliceLines existing [])) = [] := by
    rw [rest, sections_reread hafter]
    rfl
  rw [spliceLines_eq, hhead, hrest, block, if_pos rfl, List.append_nil, List.append_nil]

section Sole

variable (h : Sole existing)
include h

theorem Sole.chomp_head : (head existing).map chomp = head existing := by
  refine (List.map_congr_left fun l hl ↦ ?_).trans (List.map_id _)
  exact h.chomped l (by rw [kept_eq]; exact List.mem_append_left _ hl)

theorem Sole.chomp_rest : (rest existing).map chomp = rest existing := by
  refine (List.map_congr_left fun l hl ↦ ?_).trans (List.map_id _)
  exact h.chomped l (by rw [kept_eq]; exact List.mem_append_right _ hl)

theorem Sole.chomp_splice : (spliceLines existing []).map chomp = spliceLines existing [] := by
  rw [spliceLines_eq, block, if_pos rfl, List.append_nil, List.map_append, h.chomp_head,
    h.chomp_rest]

theorem Sole.reread_eq (hne : lines ≠ []) : reread (spliceLines existing lines) =
    (head existing ++ if head existing = [] then [] else [[]]) ++
      beginMarker :: (lines.map chomp ++ endMarker :: (rest existing ++ [[]])) := by
  have hsep : (if head existing = [] then ([] : List Line) else [[]]).map chomp =
      if head existing = [] then [] else [[]] := by
    split_ifs <;> rfl
  rw [reread, spliceLines_eq, block, if_neg hne]
  simp only [List.map_append, List.map_cons, List.map_nil, hsep, h.chomp_head, h.chomp_rest,
    chomp_beginMarker, chomp_endMarker]
  simp

theorem Sole.sections_reread (hbody : Body lines) (hne : lines ≠ []) :
    sections (reread (spliceLines existing lines)) =
      ⟨head existing ++ if head existing = [] then [] else [[]], lines.map chomp,
        rest existing ++ [[]]⟩ := by
  rw [h.reread_eq hne]
  refine sections_of_split ?_ isBegin_beginMarker ?_ isEnd_endMarker
  · intro l hl
    rcases List.mem_append.mp hl with hl | hl
    · exact isBegin_head existing l hl
    · split_ifs at hl
      · cases hl
      · rw [List.mem_singleton.mp hl]
        decide
  · intro l hl
    obtain ⟨l', hl', rfl⟩ := List.mem_map.mp hl
    rw [isEnd_chomp]
    exact (hbody l' hl').2.1

theorem Sole.head_reread (hbody : Body lines) (hne : lines ≠ []) :
    head (reread (spliceLines existing lines)) = head existing := by
  have hsep : ∀ l ∈ (if head existing = [] then ([] : List Line) else [[]]), blank l = true := by
    intro l hl
    split_ifs at hl
    · cases hl
    · rw [List.mem_singleton.mp hl]
      rfl
  rw [head, h.sections_reread hbody hne, rdropWhile_append_of_all hsep, head,
    List.rdropWhile_idempotent]

theorem Sole.rest_reread (hbody : Body lines) (hne : lines ≠ []) :
    rest (reread (spliceLines existing lines)) = rest existing := by
  have htrim := @trim_append _ blank (rest existing) [] [[]] (by simp) (by simp)
  rw [rest, h.sections_reread hbody hne]
  refine htrim.trans ?_
  rw [rest, trim_trim fun _ hl ↦ hl]

theorem Sole.splice_reread (hbody : Body lines) (hne : lines ≠ []) (lines' : List Line) :
    spliceLines (reread (spliceLines existing lines)) lines' = spliceLines existing lines' :=
  spliceLines_congr (h.head_reread hbody hne) (h.rest_reread hbody hne) lines'

end Sole

end Splice

section Text

variable {text : List Char} {existing lines : List Line}

def linesOf (text : List Char) : List Line := (replaceCrlf text).splitOn '\n'

theorem cronSpliceBlock_eq (text : List Char) (lines : List Line) :
    cronSpliceBlock text lines = unlines (spliceLines (linesOf text) lines) := by
  rw [cronSpliceBlock]
  change (if spliceLines (linesOf text) lines = [] then [] else _) = _
  split_ifs with hnil
  · rw [hnil]
    rfl
  · exact intercalate_newline hnil

theorem notMem_spliceLines (hexisting : ∀ l ∈ existing, '\n' ∉ l) (hbody : Body lines) :
    ∀ l ∈ spliceLines existing lines, '\n' ∉ l := by
  have hsections : (∀ l ∈ (sections existing).before, l ∈ existing) ∧
      ∀ l ∈ (sections existing).after, l ∈ existing := by
    rcases sections_cases existing with ⟨hsections, -⟩ | ⟨b, n, hsplit, -⟩
    · rw [hsections]
      exact ⟨fun l hl ↦ (List.mem_filter.mp hl).1, fun l hl ↦ by cases hl⟩
    · refine ⟨?_, ?_⟩
      · intro l hl
        rw [hsplit]
        exact List.mem_append_left _ hl
      · intro l hl
        rw [hsplit]
        simp [hl]
  intro l hl
  rw [spliceLines_eq, List.mem_append, List.mem_append] at hl
  rcases hl with (hl | hl) | hl
  · exact hexisting l (hsections.1 l ((List.rdropWhile_prefix blank _).subset hl))
  · rw [block] at hl
    split_ifs at hl
    · cases hl
    · simp only [List.nil_append, List.mem_cons, List.mem_append, List.not_mem_nil, or_false] at hl
      rcases hl with rfl | hl | rfl
      · exact notMem_beginMarker
      · exact (hbody l hl).2.2
      · exact notMem_endMarker
    · simp only [List.cons_append, List.nil_append, List.mem_cons, List.mem_append,
        List.not_mem_nil, or_false] at hl
      rcases hl with rfl | rfl | hl | rfl
      · exact List.not_mem_nil
      · exact notMem_beginMarker
      · exact (hbody l hl).2.2
      · exact notMem_endMarker
  · exact hexisting l (hsections.2 l (mem_of_mem_trim hl))

theorem notMem_linesOf (text : List Char) : ∀ l ∈ linesOf text, '\n' ∉ l :=
  fun _ hl ↦ notMem_of_splitOn hl

theorem splitOn_cronSpliceBlock (text : List Char) (hbody : Body lines) :
    (cronSpliceBlock text lines).splitOn '\n' = spliceLines (linesOf text) lines ++ [[]] := by
  rw [cronSpliceBlock_eq, splitOn_unlines (notMem_spliceLines (notMem_linesOf text) hbody)]

theorem linesOf_cronSpliceBlock (text : List Char) (hbody : Body lines) :
    linesOf (cronSpliceBlock text lines) = reread (spliceLines (linesOf text) lines) := by
  have hnot := notMem_spliceLines (notMem_linesOf text) hbody
  have hnot' : ∀ l ∈ (spliceLines (linesOf text) lines).map chomp, '\n' ∉ l := by
    intro l hl hmem
    obtain ⟨l', hl', rfl⟩ := List.mem_map.mp hl
    refine hnot l' hl' ?_
    rcases chomp_cases l' with h | h
    · rwa [h] at hmem
    · rw [h]
      exact List.mem_append_left _ hmem
  rw [linesOf, cronSpliceBlock_eq, replaceCrlf_unlines hnot, splitOn_unlines hnot', reread]

end Text

theorem body_nil : Body [] := fun _ hl ↦ absurd hl List.not_mem_nil

section Counts

variable {existing lines : List Line}

theorem theirs_of_blank (l : Line) (h : blank l = true) : theirs l = false := by
  simp [theirs, h]

theorem theirs_chomp (l : Line) : theirs (chomp l) = theirs l := by
  simp [theirs]

theorem filter_head (existing : List Line) :
    (head existing).filter theirs = (sections existing).before.filter theirs :=
  filter_rdropWhile theirs_of_blank _

theorem filter_rest (existing : List Line) :
    (rest existing).filter theirs = (sections existing).after.filter theirs :=
  filter_trim theirs_of_blank _

/-- What the text has of somebody else's: before the block, lost in it, and after it. -/
theorem preserved_eq (hafter : ∀ l ∈ (sections existing).after, isBegin l = false) :
    preserved existing = (sections existing).before.filter theirs ++
      (orphaned [] (sections existing).body).filter theirs ++
        (sections existing).after.filter theirs := by
  rcases sections_cases existing with ⟨hsections, before, rest, hexisting, hbefore, hrest⟩ |
    ⟨b, n, hexisting, hb, hn, hbefore, hbody⟩
  · have houtside : outside none existing = existing.filter (fun l ↦ !isBegin l) := by
      have hself : before.filter (fun l ↦ !isBegin l) = before :=
        List.filter_eq_self.mpr fun l hl ↦ by simp [hbefore l hl]
      rcases hrest with rfl | ⟨b, lines, rfl, hb, hlines⟩
      · rw [hexisting, List.append_nil, outside_of_none hbefore, hself]
      · rw [hexisting, outside_append hbefore, outside, if_pos hb, outside_open hlines,
          List.filter_append, hself, List.filter_cons_of_neg (by simp [hb]), List.nil_append]
    rw [hsections, preserved, houtside]
    simp [orphaned]
  · conv_lhs => rw [preserved, hexisting]
    rw [outside_append hbefore, outside, if_pos hb, outside_body hbody hn, outside_of_none hafter]
    simp

theorem isBegin_splice_nil (hafter : ∀ l ∈ (sections existing).after, isBegin l = false) :
    ∀ l ∈ spliceLines existing [], isBegin l = false := by
  rw [spliceLines_eq, block, if_pos rfl, List.append_nil]
  intro l hl
  rcases List.mem_append.mp hl with hl | hl
  · exact isBegin_head existing l hl
  · exact isBegin_rest hafter l hl

theorem filter_map_chomp (lines : List Line) :
    (lines.map chomp).filter theirs = (lines.filter theirs).map chomp := by
  have htheirs : theirs ∘ chomp = theirs := funext theirs_chomp
  rw [List.filter_map, htheirs]

/-- Once the block is gone, what is somebody else's is what stood around it. -/
theorem preserved_splice_nil (hafter : ∀ l ∈ (sections existing).after, isBegin l = false) :
    preserved (reread (spliceLines existing [])) =
      ((sections existing).before.filter theirs ++
        (sections existing).after.filter theirs).map chomp := by
  have hnil : theirs [] = false := rfl
  rw [preserved, outside_of_none (isBegin_reread (isBegin_splice_nil hafter)), reread,
    List.filter_append, filter_map_chomp, List.filter_cons_of_neg (by simp [hnil]),
    List.filter_nil, List.append_nil, spliceLines_eq, block, if_pos rfl, List.append_nil,
    List.filter_append, filter_head, filter_rest]

theorem Sole.orphaned_nil (h : Sole existing) :
    (orphaned [] (sections existing).body).filter theirs = [] := by
  refine List.filter_eq_nil_iff.mpr fun l hl ↦ ?_
  obtain ⟨p, b, q, hbody, hb, hl⟩ := mem_orphaned.mp hl
  obtain ⟨hmem, hbegin⟩ := hl.resolve_left List.not_mem_nil
  rcases h.body p b q hbody hb l hmem with h | h
  · rw [hbegin] at h
    cases h
  · simp [theirs, h]

theorem Sole.preserved_reread (h : Sole existing) (hbody : Body lines) :
    preserved (reread (spliceLines existing lines)) = preserved existing := by
  rw [preserved_eq h.after, h.orphaned_nil, List.append_nil]
  by_cases hne : lines = []
  · rw [hne, preserved_splice_nil h.after, ← filter_head, ← filter_rest, List.map_append,
      ← filter_map_chomp, ← filter_map_chomp, h.chomp_head, h.chomp_rest]
  · have hafter : ∀ l ∈ (sections (reread (spliceLines existing lines))).after,
        isBegin l = false := by
      rw [h.sections_reread hbody hne]
      intro l hl
      rcases List.mem_append.mp hl with hl | hl
      · exact isBegin_rest h.after l hl
      · rw [List.mem_singleton.mp hl]
        decide
    have hnone : ∀ l ∈ orphaned [] (lines.map chomp), theirs l ≠ true := by
      intro l hl
      obtain ⟨p, b, q, hsplit, hb, -⟩ := mem_orphaned.mp hl
      have hmem : b ∈ lines.map chomp := by
        rw [hsplit]
        simp
      obtain ⟨b', hb', rfl⟩ := List.mem_map.mp hmem
      rw [isBegin_chomp, (hbody b' hb').1] at hb
      cases hb
    have hsep : (if head existing = [] then ([] : List Line) else [[]]).filter theirs = [] := by
      split_ifs <;> rfl
    have hnil : ([[]] : List Line).filter theirs = [] := rfl
    rw [preserved_eq hafter, h.sections_reread hbody hne]
    simp only [List.filter_append, List.filter_eq_nil_iff.mpr hnone, hsep, hnil, List.append_nil,
      filter_head, filter_rest]

end Counts

theorem Sole.preserving {text : List Char} (h : Sole (linesOf text)) : Preserving text := by
  refine ⟨?_, ?_, ?_, ?_⟩
  · intro lines hbody
    rw [cronSpliceBlock_eq, linesOf_cronSpliceBlock text hbody]
    by_cases hne : lines = []
    · rw [hne, spliceLines_reread_nil h.after, h.chomp_splice, ← cronSpliceBlock_eq]
    · rw [h.splice_reread hbody hne, ← cronSpliceBlock_eq]
  · intro lines lines' hbody _ hne _
    rw [cronSpliceBlock_eq, linesOf_cronSpliceBlock text hbody, h.splice_reread hbody hne,
      ← cronSpliceBlock_eq]
  · intro lines hbody
    rw [splitOn_cronSpliceBlock text hbody]
    have hnil : isBegin [] = false := rfl
    have hrest : ∀ l ∈ rest (linesOf text) ++ [[]], isBegin l = false := by
      intro l hl
      rcases List.mem_append.mp hl with hl | hl
      · exact isBegin_rest h.after l hl
      · rw [List.mem_singleton.mp hl]
        exact hnil
    by_cases hne : lines = []
    · rw [if_pos hne, hne]
      refine blocks_of_none fun l hl ↦ ?_
      rcases List.mem_append.mp hl with hl | hl
      · exact isBegin_splice_nil h.after l hl
      · rw [List.mem_singleton.mp hl]
        exact hnil
    · have hsep : ∀ l ∈ head (linesOf text) ++ if head (linesOf text) = [] then [] else [[]],
          isBegin l = false := by
        intro l hl
        rcases List.mem_append.mp hl with hl | hl
        · exact isBegin_head _ l hl
        · split_ifs at hl
          · cases hl
          · rw [List.mem_singleton.mp hl]
            exact hnil
      have hsplice : spliceLines (linesOf text) lines ++ [[]] =
          (head (linesOf text) ++ if head (linesOf text) = [] then [] else [[]]) ++
            beginMarker :: (lines ++ endMarker :: (rest (linesOf text) ++ [[]])) := by
        rw [spliceLines_eq, block, if_neg hne]
        simp
      rw [if_neg hne, hsplice, blocks_append hsep, blocks, isBegin_beginMarker, if_pos rfl,
        blocks_body (fun l hl ↦ ⟨(hbody l hl).1, (hbody l hl).2.1⟩) isEnd_endMarker,
        blocks_of_none hrest, List.nil_append]
  · intro lines hbody
    exact (congrArg preserved (linesOf_cronSpliceBlock text hbody)).trans
      (h.preserved_reread hbody)

section Converse

variable {text : List Char}

theorem Preserving.again_nil (h : Preserving text) :
    spliceLines (reread (spliceLines (linesOf text) [])) [] = spliceLines (linesOf text) [] := by
  have hagain := h.again [] body_nil
  have hlines := linesOf_cronSpliceBlock text body_nil
  rw [cronSpliceBlock_eq (cronSpliceBlock text []), hlines, cronSpliceBlock_eq text] at hagain
  refine unlines_inj ?_ (notMem_spliceLines (notMem_linesOf text) body_nil) hagain
  rw [← hlines]
  exact notMem_spliceLines (notMem_linesOf _) body_nil

/-- A second block would be left standing, a second beginning would go with the next write. -/
theorem Preserving.after (h : Preserving text) :
    ∀ l ∈ (sections (linesOf text)).after, isBegin l = false := by
  intro l hl
  by_contra hbegin
  rw [Bool.not_eq_false] at hbegin
  have hblank : ¬blank l = true := by
    intro hblank
    rw [isBegin_of_blank hblank] at hbegin
    cases hbegin
  have hmem : l ∈ spliceLines (linesOf text) [] := by
    rw [spliceLines_eq]
    exact List.mem_append_right _ (mem_trim_of_neg hl hblank)
  rcases sections_cases (reread (spliceLines (linesOf text) [])) with ⟨hsections, -⟩ |
    ⟨b, n, hreread, hb, hn, hbefore, -⟩
  · rw [← h.again_nil, spliceLines_eq, rest, hsections, block, if_pos rfl, List.append_nil] at hmem
    rcases List.mem_append.mp hmem with hmem | hmem
    · rw [isBegin_head _ l hmem] at hbegin
      cases hbegin
    · cases hmem
  · have hblocks := h.blocks [] body_nil
    rw [splitOn_cronSpliceBlock text body_nil, if_pos rfl] at hblocks
    have hchomp := blocks_map_chomp none (spliceLines (linesOf text) [] ++ [[]])
    rw [hblocks, List.map_append] at hchomp
    change CronTab.blocks none (reread (spliceLines (linesOf text) [])) = [] at hchomp
    rw [hreread, blocks_append hbefore, CronTab.blocks, hb, if_pos rfl] at hchomp
    exact blocks_ne_nil hn _ _ _ hchomp

theorem Preserving.body (h : Preserving text) {p q : List Line} {b : Line}
    (hbody : (sections (linesOf text)).body = p ++ b :: q) (hb : isBegin b = true) :
    ∀ line ∈ p, isBegin line = true ∨ blank line = true := by
  have hpreserved := h.preserved [] body_nil
  change CronTab.preserved (linesOf (cronSpliceBlock text [])) =
    CronTab.preserved (linesOf text) at hpreserved
  rw [linesOf_cronSpliceBlock text body_nil, preserved_splice_nil h.after,
    preserved_eq h.after] at hpreserved
  have hlength := congrArg List.length hpreserved
  simp only [List.length_map, List.length_append] at hlength
  have hnil : (orphaned [] (sections (linesOf text)).body).filter theirs = [] :=
    List.length_eq_zero_iff.mp (by omega)
  intro line hline
  by_contra hnot
  rw [not_or, Bool.not_eq_true, Bool.not_eq_true] at hnot
  have horphaned : line ∈ orphaned [] (sections (linesOf text)).body :=
    mem_orphaned.mpr ⟨p, b, q, hbody, hb, .inr ⟨hline, hnot.1⟩⟩
  have hend : isEnd line = false := by
    rcases sections_cases (linesOf text) with ⟨hsections, -⟩ | ⟨b', n, -, -, -, -, hend⟩
    · rw [hsections] at hbody
      simp at hbody
    · refine hend line ?_
      rw [hbody]
      exact List.mem_append_left _ hline
  have htheirs := List.filter_eq_nil_iff.mp hnil line horphaned
  simp [theirs, hnot, hend] at htheirs

theorem Preserving.chomped (h : Preserving text) :
    ∀ line ∈ (sections (linesOf text)).kept, chomp line = line := by
  have hkept : spliceLines (linesOf text) [] = (sections (linesOf text)).kept := by
    rw [kept_eq, spliceLines_eq, block, if_pos rfl, List.append_nil]
  have hchomp := h.again_nil
  rw [spliceLines_reread_nil h.after, hkept] at hchomp
  have hid : (sections (linesOf text)).kept.map chomp = (sections (linesOf text)).kept.map id :=
    hchomp.trans (List.map_id _).symm
  exact fun line hline ↦ List.map_inj_left.mp hid line hline

end Converse

/-- The splice leaves everything else alone where the text has a single whole block or none. -/
theorem preserving_iff (text : List Char) : Preserving text ↔ Sole (linesOf text) := by
  constructor
  · intro h
    exact ⟨fun _ _ _ hbody hb ↦ h.body hbody hb, h.after, h.chomped⟩
  · intro h
    exact h.preserving

/-- The first write was interrupted, a second one appended its block. -/
def interrupted : List Char :=
  unlines [beginMarker, "0 3 * * * /usr/local/bin/backup.sh".toList, beginMarker,
    "30 22 * * * id".toList, endMarker]

theorem interrupted_lost : ¬∀ text, Preserving text := by
  intro h
  have hbody := (h interrupted).body (p := ["0 3 * * * /usr/local/bin/backup.sh".toList])
    (q := ["30 22 * * * id".toList]) (b := beginMarker) (by decide) isBegin_beginMarker _
    List.mem_cons_self
  revert hbody
  decide

end ZoneMinder.CronTab
