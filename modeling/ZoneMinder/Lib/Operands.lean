import Mathlib.Data.List.Basic
import Mathlib.Data.List.Forall2

namespace Lib

/-- The truth values of a logic with a third one. -/
inductive Ternary
  | no
  | unknown
  | yes
  deriving DecidableEq

namespace Ternary

def neg : Ternary → Ternary
  | no => yes
  | unknown => unknown
  | yes => no

def conj : Ternary → Ternary → Ternary
  | no, _ => no
  | yes, b => b
  | unknown, no => no
  | unknown, _ => unknown

def disj : Ternary → Ternary → Ternary
  | yes, _ => yes
  | no, b => b
  | unknown, yes => yes
  | unknown, _ => unknown

def ofBool (b : Bool) : Ternary := if b then yes else no

def conjs (l : List Ternary) : Ternary := l.foldr conj yes

def disjs (l : List Ternary) : Ternary := l.foldr disj no

variable (a b c : Ternary) {l : List Ternary}

theorem conj_assoc : conj (conj a b) c = conj a (conj b c) := by
  cases a <;> cases b <;> cases c <;> rfl

theorem disj_assoc : disj (disj a b) c = disj a (disj b c) := by
  cases a <;> cases b <;> cases c <;> rfl

@[simp] theorem yes_conj : conj yes a = a := rfl

@[simp] theorem conj_yes : conj a yes = a := by cases a <;> rfl

@[simp] theorem no_disj : disj no a = a := rfl

@[simp] theorem disj_no : disj a no = a := by cases a <;> rfl

@[simp] theorem neg_neg : neg (neg a) = a := by cases a <;> rfl

theorem neg_conj : neg (conj a b) = disj (neg a) (neg b) := by cases a <;> cases b <;> rfl

theorem neg_disj : neg (disj a b) = conj (neg a) (neg b) := by cases a <;> cases b <;> rfl

theorem neg_eq_yes_iff : neg a = yes ↔ a = no := by cases a <;> decide

@[simp] theorem neg_ofBool (b : Bool) : neg (ofBool b) = ofBool (!b) := by cases b <;> rfl

theorem ofBool_injective : Function.Injective ofBool := by
  intro b b' h
  cases b <;> cases b' <;> first | rfl | cases h

theorem ofBool_eq_yes_iff {b : Bool} : ofBool b = yes ↔ b = true := by cases b <;> decide

theorem ofBool_eq_no_iff {b : Bool} : ofBool b = no ↔ b = false := by cases b <;> decide

theorem disj_ofBool (b b' : Bool) : disj (ofBool b) (ofBool b') = ofBool (b || b') := by
  cases b <;> cases b' <;> rfl

theorem conj_ofBool (b b' : Bool) : conj (ofBool b) (ofBool b') = ofBool (b && b') := by
  cases b <;> cases b' <;> rfl

@[simp] theorem conjs_nil : conjs [] = yes := rfl

@[simp] theorem conjs_cons : conjs (a :: l) = conj a (conjs l) := rfl

@[simp] theorem disjs_nil : disjs [] = no := rfl

@[simp] theorem disjs_cons : disjs (a :: l) = disj a (disjs l) := rfl

theorem disj_eq_no_iff : disj a b = no ↔ a = no ∧ b = no := by cases a <;> cases b <;> decide

theorem disjs_eq_no_iff : disjs l = no ↔ ∀ a ∈ l, a = no := by
  induction l with
  | nil => simp
  | cons a l ih => rw [disjs_cons, disj_eq_no_iff, ih, List.forall_mem_cons]

theorem disjs_ne_yes (h : ∀ a ∈ l, a ≠ yes) : disjs l ≠ yes := by
  induction l with
  | nil => decide
  | cons a l ih =>
    obtain ⟨ha, hl⟩ := List.forall_mem_cons.mp h
    have hrest := ih hl
    rw [disjs_cons]
    revert ha hrest
    generalize disjs l = b
    cases a <;> cases b <;> decide

theorem disjs_eq_unknown (h : ∀ a ∈ l, a ≠ yes) (hone : unknown ∈ l) : disjs l = unknown := by
  induction l with
  | nil => cases hone
  | cons a l ih =>
    obtain ⟨ha, hl⟩ := List.forall_mem_cons.mp h
    have hrest := disjs_ne_yes hl
    rw [disjs_cons]
    rcases List.mem_cons.mp hone with rfl | hone
    · revert hrest
      generalize disjs l = b
      cases b <;> decide
    · rw [ih hl hone]
      revert ha
      cases a <;> decide

theorem neg_disjs (l : List Ternary) : neg (disjs l) = conjs (l.map neg) := by
  induction l with
  | nil => rfl
  | cons a l ih => rw [disjs_cons, neg_disj, ih, List.map_cons, conjs_cons]

theorem disjs_map_ofBool {α : Type} (l : List α) (p : α → Bool) :
    disjs (l.map (fun a ↦ ofBool (p a))) = ofBool (l.any p) := by
  induction l with
  | nil => rfl
  | cons a l ih => rw [List.map_cons, disjs_cons, ih, disj_ofBool, List.any_cons]

end Ternary

/-- A text of operands, `and`, `or` and brackets. -/
inductive Sign
  | operand (value : Ternary)
  | conj
  | disj
  | opening
  | closing

/-- Where a reader stands in a bracket: the value of the conjunctions that `or` has ended, that of
the one it is in, and whether an operand comes next. -/
structure Place where
  ended : Ternary
  current : Ternary
  awaiting : Bool

namespace Place

def start : Place := ⟨.no, .yes, true⟩

def value (place : Place) : Ternary := place.ended.disj place.current

def operand (place : Place) (value : Ternary) : Place :=
  ⟨place.ended, place.current.conj value, false⟩

end Place

/-- The place in the innermost bracket and those in the brackets around it. -/
abbrev Reader := Place × List Place

/-- `and` binds tighter than `or`; what is no text of this kind has no value. -/
def Reader.step : Reader → Sign → Option Reader
  | (place, around), .operand value =>
    if place.awaiting then some (place.operand value, around) else none
  | (place, around), .conj =>
    if place.awaiting then none else some ({ place with awaiting := true }, around)
  | (place, around), .disj =>
    if place.awaiting then none else some (⟨place.value, .yes, true⟩, around)
  | (place, around), .opening =>
    if place.awaiting then some (.start, place :: around) else none
  | (place, outer :: around), .closing =>
    if place.awaiting then none else some (outer.operand place.value, around)
  | (_, []), .closing => none

def Reader.run (reader : Reader) (signs : List Sign) : Option Reader :=
  signs.foldlM Reader.step reader

def Reader.result : Reader → Option Ternary
  | (place, []) => if place.awaiting then none else some place.value
  | _ => none

def evaluate (signs : List Sign) : Option Ternary :=
  (Reader.run (.start, []) signs).bind Reader.result

/-- Signs that count as one operand wherever they stand. -/
def IsOperand (signs : List Sign) (value : Ternary) : Prop :=
  ∀ reader : Reader, reader.run signs = reader.step (.operand value)

/-- Signs that have a value between brackets. -/
def Sums (signs : List Sign) (value : Ternary) : Prop :=
  ∀ around, ∃ place : Place,
    Reader.run (.start, around) signs = some (place, around) ∧ place.awaiting = false ∧
      place.value = value

variable {signs signs' before after : List Sign} {value value' : Ternary}

theorem run_append (reader : Reader) :
    reader.run (signs ++ signs') = (reader.run signs).bind (fun reader ↦ reader.run signs') :=
  List.foldlM_append

theorem isOperand_operand (value : Ternary) : IsOperand [.operand value] value := by
  intro reader
  rw [Reader.run, List.foldlM_cons, Option.bind_eq_bind]
  cases reader.step (.operand value) <;> rfl

/-- What counts as one operand is read as one in every text. -/
theorem IsOperand.evaluate_eq (h : IsOperand signs value) (before after : List Sign) :
    evaluate (before ++ signs ++ after) = evaluate (before ++ [.operand value] ++ after) := by
  simp only [evaluate, run_append]
  cases Reader.run (.start, []) before with
  | none => rfl
  | some reader => simp only [Option.bind_some, h reader, isOperand_operand value reader]

theorem IsOperand.conj (h : IsOperand signs value) (h' : IsOperand signs' value') :
    IsOperand (signs ++ [.conj] ++ signs') (value.conj value') := by
  rintro ⟨⟨ended, current, awaiting⟩, around⟩
  rw [run_append, run_append, h]
  cases awaiting with
  | false => rfl
  | true =>
    have hconj : Reader.run (⟨ended, current.conj value, false⟩, around) [.conj] =
        some (⟨ended, current.conj value, true⟩, around) := rfl
    simp [Reader.step, Place.operand, hconj, h' _, Ternary.conj_assoc]

theorem IsOperand.sums (h : IsOperand signs value) : Sums signs value := by
  intro around
  refine ⟨Place.start.operand value, ?_, rfl, ?_⟩
  · rw [h]
    rfl
  · simp [Place.start, Place.operand, Place.value]

theorem Sums.disj (h : Sums signs value) (h' : IsOperand signs' value') :
    Sums (signs ++ [.disj] ++ signs') (value.disj value') := by
  intro around
  obtain ⟨⟨ended, current, awaiting⟩, hrun, hawaiting, hvalue⟩ := h around
  simp only at hawaiting
  subst hawaiting
  refine ⟨⟨value, value', false⟩, ?_, rfl, rfl⟩
  have hdisj : Reader.run (⟨ended, current, false⟩, around) [.disj] =
      some (⟨value, .yes, true⟩, around) := by
    rw [← hvalue]
    rfl
  rw [run_append, run_append, hrun, Option.bind_some, hdisj, Option.bind_some, h']
  rfl

theorem Sums.brackets (h : Sums signs value) : IsOperand ([.opening] ++ signs ++ [.closing]) value := by
  rintro ⟨⟨ended, current, awaiting⟩, around⟩
  rw [run_append, run_append]
  cases awaiting with
  | false => rfl
  | true =>
    obtain ⟨place, hrun, hawaiting, hvalue⟩ := h (⟨ended, current, true⟩ :: around)
    have hopening : Reader.run (⟨ended, current, true⟩, around) [.opening] =
        some (.start, ⟨ended, current, true⟩ :: around) := rfl
    have hclosing : Reader.run (place, ⟨ended, current, true⟩ :: around) [.closing] =
        some (Place.operand ⟨ended, current, true⟩ value, around) := by
      simp [Reader.run, Reader.step, hawaiting, hvalue]
    rw [hopening, Option.bind_some, hrun, Option.bind_some, hclosing]
    rfl

theorem map_intersperse {α β : Type} (f : α → β) (separator : α) (l : List α) :
    (l.intersperse separator).map f = (l.map f).intersperse (f separator) := by
  induction l with
  | nil => rfl
  | cons a l ih =>
    cases l with
    | nil => rfl
    | cons b l =>
      rw [List.intersperse_cons_cons, List.map_cons, List.map_cons, ih]
      rfl

theorem flatMap_flatten {α β : Type} (f : α → List β) (l : List (List α)) :
    l.flatten.flatMap f = (l.map (List.flatMap f)).flatten := by
  induction l with
  | nil => rfl
  | cons a l ih =>
    rw [List.flatten_cons, List.flatMap_append, ih]
    rfl

def joinedBy (sign : Sign) (parts : List (List Sign)) : List Sign :=
  (parts.intersperse [sign]).flatten

theorem joinedBy_cons (sign : Sign) (part : List Sign) (parts : List (List Sign)) :
    joinedBy sign (part :: parts) = part ++ parts.flatMap (fun part ↦ [sign] ++ part) := by
  induction parts generalizing part with
  | nil => simp [joinedBy]
  | cons part' parts ih =>
    have hmore := ih part'
    rw [joinedBy] at hmore
    rw [joinedBy, List.intersperse_cons_cons, List.flatten_cons, List.flatten_cons, hmore,
      List.flatMap_cons]
    rfl

variable {parts : List (List Sign)} {values : List Ternary}

theorem Sums.disjs (h : List.Forall₂ IsOperand parts values) (hfirst : Sums signs value) :
    Sums (signs ++ parts.flatMap (fun part ↦ [.disj] ++ part)) (value.disj (Ternary.disjs values)) := by
  induction h generalizing signs value with
  | nil => simpa using hfirst
  | cons hpart _ ih =>
    have hmore := ih (hfirst.disj hpart)
    rw [Ternary.disj_assoc] at hmore
    simpa using hmore

/-- Operands that `or` joins, between brackets. -/
theorem isOperand_disjs (h : List.Forall₂ IsOperand parts values) (hne : parts ≠ []) :
    IsOperand ([.opening] ++ joinedBy .disj parts ++ [.closing]) (Ternary.disjs values) := by
  cases h with
  | nil => exact absurd rfl hne
  | cons hpart hparts =>
    rw [joinedBy_cons]
    exact (hpart.sums.disjs hparts).brackets

theorem IsOperand.conjs (h : List.Forall₂ IsOperand parts values) (hfirst : IsOperand signs value) :
    IsOperand (signs ++ parts.flatMap (fun part ↦ [.conj] ++ part))
      (value.conj (Ternary.conjs values)) := by
  induction h generalizing signs value with
  | nil => simpa using hfirst
  | cons hpart _ ih =>
    have hmore := ih (hfirst.conj hpart)
    rw [Ternary.conj_assoc] at hmore
    simpa using hmore

theorem isOperand_conjs (h : List.Forall₂ IsOperand parts values) (hne : parts ≠ []) :
    IsOperand (joinedBy .conj parts) (Ternary.conjs values) := by
  cases h with
  | nil => exact absurd rfl hne
  | cons hpart hparts =>
    rw [joinedBy_cons]
    exact hpart.conjs hparts

end Lib
