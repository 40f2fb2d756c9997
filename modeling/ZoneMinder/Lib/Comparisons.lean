import ZoneMinder.Lib.Operands

namespace Lib

inductive Comparator
  | eq
  | ne
  | ge
  | gt
  | le
  | lt
  | like
  | notLike
  | regexp
  | notRegexp
  | parity
  | notParity

/-- What a row of a table tells about expressions: their values, none for a missing one, how two
values compare, and which queries find rows. -/
structure Row (ε δ : Type) where
  datum : ε → Option δ
  eq : δ → δ → Bool
  lt : δ → δ → Bool
  like : δ → δ → Bool
  regexp : δ → δ → Bool
  parity : δ → δ → Bool
  finds : ε → Bool

/-- A comparison has no truth value where a value is missing. -/
def liftTernary {δ : Type} (r : δ → δ → Bool) : Option δ → Option δ → Ternary
  | some a, some b => .ofBool (r a b)
  | _, _ => .unknown

inductive Atom (ε : Type)
  | compare (left : ε) (comparator : Comparator) (right : ε)
  | member (left : ε) (negated : Bool) (values : List ε)
  | null (left : ε) (negated : Bool) (keyword : ε)
  | finds (negated : Bool) (query : ε)

variable {ε δ : Type} (row : Row ε δ)

def Comparator.truth (a b : Option δ) : Comparator → Ternary
  | eq => liftTernary row.eq a b
  | ne => (liftTernary row.eq a b).neg
  | ge => (liftTernary row.lt a b).neg
  | gt => liftTernary row.lt b a
  | le => (liftTernary row.lt b a).neg
  | lt => liftTernary row.lt a b
  | like => liftTernary row.like a b
  | notLike => (liftTernary row.like a b).neg
  | regexp => liftTernary row.regexp a b
  | notRegexp => (liftTernary row.regexp a b).neg
  | parity => liftTernary row.parity a b
  | notParity => (liftTernary row.parity a b).neg

def negatedIf (negated : Bool) (value : Ternary) : Ternary := if negated then value.neg else value

/-- A value is in a list when it equals one of its elements; in an empty one is nothing. -/
def Atom.truth : Atom ε → Ternary
  | compare left comparator right => comparator.truth row (row.datum left) (row.datum right)
  | member left negated values =>
    negatedIf negated (.disjs (values.map (fun value ↦
      liftTernary row.eq (row.datum left) (row.datum value))))
  | null left negated _ => negatedIf negated (.ofBool (row.datum left).isNone)
  | finds negated query => negatedIf negated (.ofBool (row.finds query))

/-- The comparison that is false where another one is true. -/
def Comparator.opposite : Comparator → Comparator
  | eq => ne
  | ne => eq
  | ge => lt
  | gt => le
  | le => gt
  | lt => ge
  | like => notLike
  | notLike => like
  | regexp => notRegexp
  | notRegexp => regexp
  | parity => notParity
  | notParity => parity

def Atom.opposite : Atom ε → Atom ε
  | compare left comparator right => compare left comparator.opposite right
  | member left negated values => member left (!negated) values
  | null left negated keyword => null left (!negated) keyword
  | finds negated query => finds (!negated) query

theorem truth_opposite_comparator (comparator : Comparator) (a b : Option δ) :
    comparator.opposite.truth row a b = (comparator.truth row a b).neg := by
  cases comparator <;> simp [Comparator.opposite, Comparator.truth]

theorem truth_opposite (atom : Atom ε) : atom.opposite.truth row = (atom.truth row).neg := by
  have hnegated (negated : Bool) (value : Ternary) :
      negatedIf (!negated) value = (negatedIf negated value).neg := by
    cases negated <;> simp [negatedIf]
  cases atom with
  | compare left comparator right => exact truth_opposite_comparator row comparator _ _
  | member left negated values => exact hnegated _ _
  | null left negated keyword => exact hnegated _ _
  | finds negated query => exact hnegated _ _

/-- Values that are there compare one way or the other. -/
theorem truth_compare_known (comparator : Comparator) {left right : ε}
    (hleft : (row.datum left).isSome) (hright : (row.datum right).isSome) :
    ∃ b, (Atom.compare left comparator right).truth row = .ofBool b := by
  obtain ⟨a, ha⟩ := Option.isSome_iff_exists.mp hleft
  obtain ⟨b, hb⟩ := Option.isSome_iff_exists.mp hright
  rw [Atom.truth, ha, hb]
  cases comparator <;> simp only [Comparator.truth, liftTernary, Ternary.neg_ofBool] <;>
    exact ⟨_, rfl⟩

inductive Word (ε : Type)
  | atom (a : Atom ε)
  | conj
  | disj
  | opening
  | closing

def Word.sign : Word ε → Sign
  | atom a => .operand (a.truth row)
  | conj => .conj
  | disj => .disj
  | opening => .opening
  | closing => .closing

def signs (words : List (Word ε)) : List Sign := words.map (Word.sign row)

/-- The truth value of a condition in a row. -/
def truth (words : List (Word ε)) : Option Ternary := evaluate (signs row words)

variable {row} {words words' : List (Word ε)} {value value' : Ternary}

theorem truth_of_isOperand (h : IsOperand (signs row words) value) :
    truth row words = some value := by
  rw [truth, evaluate, h]
  simp [Reader.step, Reader.result, Place.start, Place.operand, Place.value]

theorem signs_append : signs row (words ++ words') = signs row words ++ signs row words' :=
  List.map_append

theorem isOperand_atom (a : Atom ε) : IsOperand (signs row [.atom a]) (a.truth row) :=
  isOperand_operand _

def conjoined (words words' : List (Word ε)) : List (Word ε) := words ++ [.conj] ++ words'

def bracketed (words : List (Word ε)) : List (Word ε) := [.opening] ++ words ++ [.closing]

def joinedWords (separator : Word ε) (parts : List (List (Word ε))) : List (Word ε) :=
  (parts.intersperse [separator]).flatten

theorem isOperand_conjoined (h : IsOperand (signs row words) value)
    (h' : IsOperand (signs row words') value') :
    IsOperand (signs row (conjoined words words')) (value.conj value') := by
  rw [conjoined, signs_append, signs_append]
  exact h.conj h'

theorem isOperand_bracketed (h : IsOperand (signs row words) value) :
    IsOperand (signs row (bracketed words)) value := by
  rw [bracketed, signs_append, signs_append]
  exact h.sums.brackets

theorem signs_joinedWords (separator : Word ε) (parts : List (List (Word ε))) :
    signs row (joinedWords separator parts) =
      joinedBy (separator.sign row) (parts.map (signs row)) := by
  rw [joinedWords, joinedBy, signs, List.map_flatten, map_intersperse]
  rfl

variable {parts : List (List (Word ε))} {values : List Ternary}

theorem isOperand_disjoined (h : List.Forall₂ (fun part value ↦ IsOperand (signs row part) value)
    parts values) (hne : parts ≠ []) :
    IsOperand (signs row (bracketed (joinedWords .disj parts))) (Ternary.disjs values) := by
  rw [bracketed, signs_append, signs_append, signs_joinedWords]
  exact isOperand_disjs (List.forall₂_map_left_iff.mpr h) (by simpa using hne)

theorem isOperand_conjoinedAll (h : List.Forall₂ (fun part value ↦ IsOperand (signs row part) value)
    parts values) (hne : parts ≠ []) :
    IsOperand (signs row (bracketed (joinedWords .conj parts))) (Ternary.conjs values) := by
  apply isOperand_bracketed
  rw [signs_joinedWords]
  exact isOperand_conjs (List.forall₂_map_left_iff.mpr h) (by simpa using hne)

end Lib
