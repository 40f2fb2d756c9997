import ZoneMinder.Lib.Lines
import ZoneMinder.Php
import Mathlib.Logic.Function.Basic

namespace ZoneMinder.ZmConf

open Lib

abbrev Text := List Char

/-- The physical lines as `fgets` reads them, each with the newline that ends it. -/
def physicalLines : Text → List Line
  | [] => []
  | c :: cs =>
    if c = '\n' then [c] :: physicalLines cs
    else match physicalLines cs with
      | [] => [[c]]
      | line :: lines => (c :: line) :: lines

/-- `std::getline`, and the carriage return that may be left of a line ending. -/
def getline (line : Line) : Line :=
  chomp (if line.getLast? = some '\n' then line.dropLast else line)

/-- `s/\r?\n\z//` -/
def stripEol (line : Line) : Line :=
  if line.getLast? = some '\n' then chomp line.dropLast else line

def blank (c : Char) : Bool := c = ' ' || c = '\t'

def quote (c : Char) : Bool := c = '\'' || c = '"'

/-- What stands before the backslash a line ends in; blanks may follow the backslash. -/
def continued (line : Line) : Option Line :=
  if (line.rdropWhile blank).getLast? = some '\\' then some (line.rdropWhile blank).dropLast
  else none

abbrev Setting := Line × Line

abbrev Config := Line → Option Line

def Config.set (config : Config) (s : Setting) : Config := Function.update config s.1 (some s.2)

namespace Daemon

def raw : Option Line → Line → Line
  | none, line => line
  | some pending, line => pending ++ line.dropWhile blank

/-- The lines that are parsed. All that has been put together is looked at again for a backslash,
and the end of the file ends the last one. -/
def join : Option Line → List Line → List Line
  | none, [] => []
  | some pending, [] => [pending]
  | pending, line :: lines =>
    match continued (raw pending line) with
    | some text => join (some text) lines
    | none => raw pending line :: join none lines

/-- A value without the blanks, or the quotes, that it begins with: both are counted from its first
character. -/
def skip (value : Line) : Line :=
  value.drop ((value.takeWhile blank).length + (value.takeWhile quote).length)

/-- The name and the value of a line, if it has them; a C string ends at its first NUL. -/
def setting (raw : Line) : Option Setting :=
  let line := (raw.takeWhile (fun c ↦ c ≠ '\x00')).dropWhile blank
  if line = [] ∨ line.head? = some '#' then none
  else
    let line := line.rdropWhile (fun c ↦ blank c || quote c)
    match line.dropWhile (fun c ↦ c ≠ '=') with
    | [] => none
    | _ :: value =>
      some ((line.takeWhile (fun c ↦ c ≠ '=')).rdropWhile blank, skip value)

def settings (text : Text) : List Setting :=
  (join none ((physicalLines text).map getline)).filterMap setting

/-- `process_configfile` adds to the options that were read before. -/
def processConfigfile (config : Config) (text : Text) : Config :=
  (settings text).foldl Config.set config

def loadStaticConfig (files : List Text) : Config := files.foldl processConfigfile fun _ ↦ none

end Daemon

namespace Script

/-- A line that goes on with a text is read without the blanks before it. -/
def str (logical line : Line) : Line := if logical = [] then line else line.dropWhile blank

/-- The lines that are parsed, and the text that still waits for a line at the end of the file.
Only the line that was read is looked at for a backslash. -/
def join : Line → List Line → List Line × Line
  | logical, [] => ([], logical)
  | logical, line :: lines =>
    match continued (str logical line) with
    | some text => join (logical ++ text) lines
    | none => ((logical ++ str logical line) :: (join [] lines).1, (join [] lines).2)

def logicalLines (text : Text) : List Line × Line := join [] ((physicalLines text).map stripEol)

/-- The pattern of both scripts, `/^\s*([^=\s]+)\s*=\s*['"]*(.*?)['"]*\s*$/`, on a line that is
neither empty nor a comment. -/
def setting (line : Line) : Option Setting :=
  let line := line.dropWhile Php.space
  if line = [] ∨ line.head? = some '#' then none
  else
    let name := line.takeWhile fun c ↦ c ≠ '=' && !Php.space c
    let rest := (line.dropWhile fun c ↦ c ≠ '=' && !Php.space c).dropWhile Php.space
    match rest with
    | '=' :: value =>
      if name = [] then none
      else some (name, (((value.dropWhile Php.space).dropWhile quote).rdropWhile
        Php.space).rdropWhile quote)
    | _ => none

end Script

namespace Web

def processConfigfile (text : Text) : Config :=
  ((Script.logicalLines text).1.filterMap Script.setting).foldl Config.set fun _ ↦ none

def merge (config newconfig : Config) : Config := fun name ↦ (newconfig name).or (config name)

def loadConfig (files : List Text) : Config :=
  files.foldl (fun config text ↦ merge config (processConfigfile text)) fun _ ↦ none

end Web

namespace Perl

/-- A name that Perl takes for false is none; `uc` of the others. -/
def setting (line : Line) : Option Setting :=
  (Script.setting line).bind fun s ↦
    if s.1 = ['0'] then none else some (s.1.map Char.toUpper, s.2)

def processConfigfile (config : Config) (text : Text) : Config :=
  ((Script.logicalLines text).1.filterMap setting).foldl Config.set config

def loadConfig (files : List Text) : Config := files.foldl processConfigfile fun _ ↦ none

end Perl

variable {line logical u v : Line} {lines : List Line}

/-- No line that ends in a backslash, but for blanks, is given an empty line to go on with. -/
def Closed : Line → List Line → Prop
  | _, [] => True
  | logical, line :: lines =>
    match continued (Script.str logical line) with
    | some text => Closed (logical ++ text) lines
    | none => ((∀ c ∈ line, blank c) → continued logical = none) ∧ Closed [] lines

/-- Where no line is empty the daemons and the scripts put the same lines together. -/
theorem closed_of_visible (h : ∀ line ∈ lines, line.any fun c ↦ !blank c) :
    Closed logical lines := by
  induction lines generalizing logical with
  | nil => trivial
  | cons line lines ih =>
    have hlines := fun l hl ↦ h l (List.mem_cons_of_mem line hl)
    obtain ⟨c, hc, hvisible⟩ := List.any_eq_true.mp (h line List.mem_cons_self)
    rw [Closed]
    cases hline : continued (Script.str logical line) with
    | some text => exact ih hlines
    | none =>
      refine ⟨fun hblank ↦ ?_, ih hlines⟩
      rw [hblank c hc] at hvisible
      cases hvisible

theorem getline_eq (h : '\r' ∉ stripEol line) : getline line = stripEol line := by
  rw [getline, stripEol] at *
  split_ifs at * with heol
  · rfl
  · rcases chomp_cases line with hchomp | hchomp
    · exact hchomp
    · rw [hchomp] at h
      simp at h

theorem continued_of_last {a : Char} (ha : ¬blank a) (hv : ∀ c ∈ v, blank c) :
    continued (u ++ a :: v) = if a = '\\' then some u else none := by
  rw [continued, rdropWhile_of_last ha hv]
  simp

theorem continued_blank (h : ∀ c ∈ line, blank c) : continued line = none := by
  rw [continued, List.rdropWhile_eq_nil_iff.mpr h]
  rfl

theorem continued_iff : continued line = some u ↔ ∃ v, line = u ++ '\\' :: v ∧ ∀ c ∈ v, blank c := by
  constructor
  · intro h
    by_cases hline : ∀ c ∈ line, blank c
    · rw [continued_blank hline] at h
      cases h
    · obtain ⟨w, a, v, rfl, ha, hv⟩ := exists_last_not hline
      rw [continued_of_last ha hv] at h
      split_ifs at h with hback
      obtain rfl := Option.some.inj h
      exact ⟨v, by rw [hback], hv⟩
  · rintro ⟨v, rfl, hv⟩
    rw [continued_of_last (by decide) hv, if_pos rfl]

theorem continued_append (h : ¬∀ c ∈ v, blank c) :
    continued (u ++ v) = (continued v).map (u ++ ·) := by
  obtain ⟨w, a, x, rfl, ha, hx⟩ := exists_last_not h
  rw [← List.append_assoc, continued_of_last ha hx, continued_of_last ha hx]
  split_ifs <;> rfl

theorem continued_append_blank (h : ∀ c ∈ v, blank c) : continued (u ++ v) = continued u := by
  rw [continued, continued, rdropWhile_append_of_all h]

theorem continued_blank_append (h : ∀ c ∈ u, blank c) :
    continued (u ++ v) = (continued v).map (u ++ ·) := by
  by_cases hv : ∀ c ∈ v, blank c
  · rw [continued_append_blank hv, continued_blank h, continued_blank hv]
    rfl
  · exact continued_append hv

/-- The text the daemons hold against the text of the scripts, which may have blanks before it. -/
def Follows : Option Line → Line → Prop
  | none, logical => logical = []
  | some pending, logical => ∃ b, (∀ c ∈ b, blank c) ∧ logical = b ++ pending

theorem follows_none : Follows none [] := rfl

theorem exists_blank (line : Line) :
    ∃ b, (∀ c ∈ b, blank c) ∧ line = b ++ line.dropWhile blank :=
  ⟨line.takeWhile blank, fun _ hc ↦ List.mem_takeWhile_imp hc, List.takeWhile_append_dropWhile.symm⟩

theorem follows_line {pending : Option Line} (h : Follows pending logical) (line : Line) :
    ∃ b, (∀ c ∈ b, blank c) ∧
      logical ++ Script.str logical line = b ++ Daemon.raw pending line := by
  rw [Script.str]
  cases pending with
  | none =>
    have hlogical : logical = [] := h
    exact ⟨[], by simp, by simp [hlogical, Daemon.raw]⟩
  | some pending =>
    obtain ⟨b, hb, rfl⟩ := h
    by_cases hnil : b ++ pending = []
    · obtain ⟨rfl, rfl⟩ := List.append_eq_nil_iff.mp hnil
      obtain ⟨b, hb, hline⟩ := exists_blank line
      exact ⟨b, hb, by simpa [Daemon.raw] using hline⟩
    · exact ⟨b, hb, by rw [if_neg hnil, List.append_assoc, Daemon.raw]⟩

theorem str_blank_iff (logical line : Line) :
    (∀ c ∈ Script.str logical line, blank c) ↔ ∀ c ∈ line, blank c := by
  rw [Script.str]
  split_ifs
  · rfl
  · obtain ⟨b, hb, hline⟩ := exists_blank line
    constructor
    · intro h c hc
      rw [hline, List.mem_append] at hc
      exact hc.elim (hb c) (h c)
    · intro h c hc
      exact h c ((List.dropWhile_sublist _).mem hc)

/-- What is put together goes on where the line does, unless the line is empty and the text before
it ends in another backslash. -/
theorem continued_line (h : (∀ c ∈ line, blank c) → continued logical = none) :
    continued (logical ++ Script.str logical line) =
      (continued (Script.str logical line)).map (logical ++ ·) := by
  by_cases hblank : ∀ c ∈ line, blank c
  · have hstr := (str_blank_iff logical line).mpr hblank
    rw [continued_append_blank hstr, continued_blank hstr, h hblank]
    rfl
  · exact continued_append fun hstr ↦ hblank ((str_blank_iff logical line).mp hstr)

theorem follows_of_continued {pending : Option Line} {text : Line} (h : Follows pending logical)
    (hline : continued (Script.str logical line) = some text) :
    ∃ text', continued (Daemon.raw pending line) = some text' ∧
      Follows (some text') (logical ++ text) := by
  obtain ⟨b, hb, heq⟩ := follows_line h line
  have hnot : (∀ c ∈ line, blank c) → continued logical = none := by
    intro hblank
    rw [continued_blank ((str_blank_iff logical line).mpr hblank)] at hline
    cases hline
  have hmap := continued_line hnot
  rw [heq, continued_blank_append hb, hline, Option.map_some, Option.map_eq_some_iff] at hmap
  obtain ⟨text', htext', hb'⟩ := hmap
  exact ⟨text', htext', b, hb, hb'.symm⟩

theorem raw_closed {pending : Option Line} (h : Follows pending logical)
    (hline : continued (Script.str logical line) = none)
    (hclosed : (∀ c ∈ line, blank c) → continued logical = none) :
    continued (Daemon.raw pending line) = none := by
  obtain ⟨b, hb, heq⟩ := follows_line h line
  have hmap := continued_line hclosed
  rw [heq, continued_blank_append hb, hline, Option.map_none, Option.map_eq_none_iff] at hmap
  exact hmap

/-- Both readings set the same options, with what stands at the end of the file for the daemons. -/
theorem join_settings (f : Line → Option Setting) (hnil : f [] = none)
    (hblank : ∀ b line, (∀ c ∈ b, blank c) → f (b ++ line) = f line) {pending : Option Line}
    (h : Follows pending logical) (hclosed : Closed logical lines) :
    (Daemon.join pending lines).filterMap f =
      ((Script.join logical lines).1 ++ [(Script.join logical lines).2]).filterMap f := by
  induction lines generalizing pending logical with
  | nil =>
    cases pending with
    | none =>
      have hlogical : logical = [] := h
      simp [Daemon.join, Script.join, hlogical, hnil]
    | some pending =>
      obtain ⟨b, hb, rfl⟩ := h
      simp [Daemon.join, Script.join, List.filterMap_cons, hblank b pending hb]
  | cons line lines ih =>
    rw [Closed] at hclosed
    rw [Daemon.join, Script.join]
    cases hline : continued (Script.str logical line) with
    | some text =>
      obtain ⟨text', htext', hfollows⟩ := follows_of_continued h hline
      rw [hline] at hclosed
      rw [htext']
      exact ih hfollows hclosed
    | none =>
      rw [hline] at hclosed
      obtain ⟨b, hb, heq⟩ := follows_line h line
      rw [raw_closed h hline hclosed.1, heq]
      simp only [List.filterMap_cons, List.cons_append, hblank b _ hb,
        ih follows_none hclosed.2]

theorem closed_of_waiting (h : (Script.join logical lines).1 = []) : Closed logical lines := by
  induction lines generalizing logical with
  | nil => trivial
  | cons line lines ih =>
    rw [Script.join] at h
    rw [Closed]
    cases hline : continued (Script.str logical line) with
    | some text =>
      rw [hline] at h
      exact ih h
    | none =>
      rw [hline] at h
      cases h

theorem waiting_extends (h : Script.join logical lines = ([], u)) : logical <+: u := by
  induction lines generalizing logical with
  | nil =>
    rw [Script.join, Prod.mk.injEq] at h
    rw [h.2]
  | cons line lines ih =>
    rw [Script.join] at h
    cases hline : continued (Script.str logical line) with
    | some text =>
      rw [hline] at h
      exact (List.prefix_append logical text).trans (ih h)
    | none =>
      rw [hline] at h
      cases h

theorem join_backslashes (h : Script.join [] lines = ([], [])) (text : Line) :
    Daemon.join (some text) lines = [text] := by
  induction lines with
  | nil => rfl
  | cons line lines ih =>
    rw [Script.join] at h
    cases hline : continued (Script.str [] line) with
    | none =>
      rw [hline] at h
      cases h
    | some m =>
      rw [hline] at h
      obtain rfl : m = [] := List.prefix_nil.mp (waiting_extends h)
      obtain ⟨v, hv, hblank⟩ := continued_iff.mp hline
      have hraw : continued (Daemon.raw (some text) line) = some text := by
        refine continued_iff.mpr ⟨v, ?_, hblank⟩
        rw [Script.str, if_pos rfl] at hv
        rw [Daemon.raw, hv]
        rfl
      rw [Daemon.join, hraw]
      exact ih h

/-- Where the only line is one that the daemons take to go on, they lose its last backslash. -/
theorem join_broken {pending : Option Line} (h : Follows pending logical)
    (hjoin : Script.join logical lines = ([line], [])) (hclosed : ¬Closed logical lines) :
    ∃ b text, (∀ c ∈ b, blank c) ∧ Daemon.join pending lines = [text] ∧
      continued line = some (b ++ text) := by
  induction lines generalizing pending logical with
  | nil => exact absurd trivial hclosed
  | cons first lines ih =>
    rw [Closed] at hclosed
    rw [Script.join] at hjoin
    cases hfirst : continued (Script.str logical first) with
    | some text =>
      obtain ⟨text', htext', hfollows⟩ := follows_of_continued h hfirst
      rw [hfirst] at hclosed hjoin
      rw [Daemon.join, htext']
      exact ih hfollows hjoin hclosed
    | none =>
      rw [hfirst] at hclosed hjoin
      simp only [Prod.mk.injEq, List.cons.injEq] at hjoin
      obtain ⟨⟨rfl, hrest⟩, hend⟩ := hjoin
      have hbroken : (∀ c ∈ first, blank c) ∧ continued logical ≠ none := by
        by_contra hnot
        exact hclosed ⟨fun hblank ↦ not_not.mp fun hne ↦ hnot ⟨hblank, hne⟩,
          closed_of_waiting hrest⟩
      obtain ⟨hblank, hne⟩ := hbroken
      obtain ⟨b, hb, heq⟩ := follows_line h first
      obtain ⟨u, hu⟩ := Option.ne_none_iff_exists'.mp hne
      have hmap := continued_append_blank (u := logical)
        ((str_blank_iff logical first).mpr hblank)
      rw [hu] at hmap
      have hmap' := hmap
      rw [heq, continued_blank_append hb, Option.map_eq_some_iff] at hmap'
      obtain ⟨text, htext, rfl⟩ := hmap'
      refine ⟨b, text, hb, ?_, hmap⟩
      rw [Daemon.join, htext]
      exact join_backslashes (Prod.ext hrest hend) text

end ZoneMinder.ZmConf
