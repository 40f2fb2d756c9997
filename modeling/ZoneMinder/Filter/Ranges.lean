import ZoneMinder.Lib.Comparisons
import ZoneMinder.Lib.Fields

namespace ZoneMinder.Filter

open Lib

variable {ε : Type}

def withinWords (column : ε) (bounds : ε × ε) : List (Word ε) :=
  conjoined [.atom (.compare column .ge bounds.1)] [.atom (.compare column .lt bounds.2)]

def outsideWords (column : ε) (bounds : ε × ε) : List (Word ε) :=
  bracketed (joinedWords .disj
    [[.atom (.compare column .lt bounds.1)], [.atom (.compare column .ge bounds.2)]])

/-- The fragment for a range of days, with the bounds of its values. -/
def rangeWords (column : ε) (op : String) (bounds : List (ε × ε)) :
    Option (List (Word ε)) :=
  if op = "IN" ∨ op = "=[]" then
    some (bracketed (joinedWords .disj (bounds.map (fun b ↦ bracketed (withinWords column b)))))
  else if op = "NOT IN" ∨ op = "![]" then
    some (bracketed (joinedWords .conj (bounds.map (outsideWords column))))
  else bounds.head?.bind fun first ↦
    if op = "=" ∨ op = "IS" then some (withinWords column first)
    else if op = "!=" ∨ op = "IS NOT" then some (outsideWords column first)
    else if op = ">" then some [.atom (.compare column .ge first.2)]
    else if op = ">=" then some [.atom (.compare column .ge first.1)]
    else if op = "<" then some [.atom (.compare column .lt first.1)]
    else if op = "<=" then some [.atom (.compare column .lt first.2)]
    else none

section Operands

variable {δ : Type} (row : Row ε δ) (column : ε) (bounds : ε × ε)

theorem isOperand_within :
    IsOperand (signs row (withinWords column bounds))
      (.conj ((Atom.compare column .ge bounds.1).truth row)
        ((Atom.compare column .lt bounds.2).truth row)) :=
  isOperand_conjoined (isOperand_atom _) (isOperand_atom _)

/-- A range is left before its start or from its end on. -/
theorem isOperand_outside :
    IsOperand (signs row (outsideWords column bounds))
      (Ternary.neg (.conj ((Atom.compare column .ge bounds.1).truth row)
        ((Atom.compare column .lt bounds.2).truth row))) := by
  have houtside := @isOperand_disjoined _ _ row
    [[.atom (.compare column .lt bounds.1)], [.atom (.compare column .ge bounds.2)]] _
    (.cons (isOperand_atom _) (.cons (isOperand_atom _) .nil)) (by simp)
  rw [Ternary.neg_conj, ← truth_opposite, ← truth_opposite]
  simpa [outsideWords, Atom.opposite, Comparator.opposite] using houtside

end Operands

/-- What the operators of a date term ask for. -/
inductive RangeOp
  | eq
  | ne
  | gt
  | ge
  | lt
  | le
  | oneOf
  | noneOf
  deriving DecidableEq

def rangeOps : List (String × RangeOp) :=
  [("=", .eq), ("IS", .eq), ("!=", .ne), ("IS NOT", .ne), (">", .gt), (">=", .ge), ("<", .lt),
    ("<=", .le), ("IN", .oneOf), ("=[]", .oneOf), ("NOT IN", .noneOf), ("![]", .noneOf)]

theorem isSome_of_rangeWords {column : ε} {op : String} {bounds : List (ε × ε)}
    (h : (rangeWords column op bounds).isSome) : (rangeOps.lookup op).isSome := by
  rw [rangeWords] at h
  by_cases hlist : (op = "IN" ∨ op = "=[]") ∨ op = "NOT IN" ∨ op = "![]"
  · rcases hlist with (rfl | rfl) | rfl | rfl <;> decide
  · rw [not_or] at hlist
    rw [if_neg hlist.1, if_neg hlist.2] at h
    cases hhead : bounds.head? with
    | none => simp [hhead] at h
    | some first =>
      rw [hhead, Option.bind_some] at h
      split_ifs at h with hwithin houtside hgt hge hlt hle
      · rcases hwithin with rfl | rfl <;> decide
      · rcases houtside with rfl | rfl <;> decide
      · rw [hgt]
        decide
      · rw [hge]
        decide
      · rw [hlt]
        decide
      · rw [hle]
        decide
      · cases h

def comparatorText : Comparator → String
  | .eq => " = "
  | .ne => " != "
  | .ge => " >= "
  | .gt => " > "
  | .le => " <= "
  | .lt => " < "
  | .like => " LIKE "
  | .notLike => " NOT LIKE "
  | .regexp => " regexp "
  | .notRegexp => " not regexp "
  | .parity => " % 2 = "
  | .notParity => " % 2 != "

section Sql

variable {π : Type} (code : String → π)

def joinedSql (separator : String) (parts : List (List π)) : List π :=
  (parts.intersperse [code separator]).flatten

def listSql (values : List (List π)) : List π :=
  if values.isEmpty then [code "(SELECT NULL WHERE 1!=1)"]
  else [code "("] ++ joinedSql code "," values ++ [code ")"]

def atomSql : Atom (List π) → List π
  | .compare left comparator right => left ++ [code (comparatorText comparator)] ++ right
  | .member left negated values =>
    left ++ [code (if negated then " NOT IN " else " IN ")] ++ listSql code values
  | .null left negated keyword => left ++ [code (if negated then " IS NOT " else " IS ")] ++ keyword
  | .finds negated query => [code (if negated then "NOT " else "")] ++ query

def wordSql : Word (List π) → List π
  | .atom a => atomSql code a
  | .conj => [code " AND "]
  | .disj => [code " OR "]
  | .opening => [code "("]
  | .closing => [code ")"]

def wordsSql (words : List (Word (List π))) : List π := words.flatMap (wordSql code)

def withinSql (column : String) (bounds : List π × List π) : List π :=
  [code (column ++ " >= ")] ++ bounds.1 ++ [code (" AND " ++ column ++ " < ")] ++ bounds.2

def outsideSql (column : String) (bounds : List π × List π) : List π :=
  [code ("(" ++ column ++ " < ")] ++ bounds.1 ++ [code (" OR " ++ column ++ " >= ")] ++ bounds.2 ++
    [code ")"]

/-- The text of a range. -/
def rangeSql (column op : String) (bounds : List (List π × List π)) : List π :=
  let first := bounds.headD ([], [])
  if op = "IN" ∨ op = "=[]" then
    [code "("] ++
      joinedSql code " OR " (bounds.map (fun b ↦ [code "("] ++ withinSql code column b ++ [code ")"])) ++
      [code ")"]
  else if op = "NOT IN" ∨ op = "![]" then
    [code "("] ++ joinedSql code " AND " (bounds.map (outsideSql code column)) ++ [code ")"]
  else if op = "=" ∨ op = "IS" then withinSql code column first
  else if op = "!=" ∨ op = "IS NOT" then outsideSql code column first
  else if op = ">" then [code (column ++ " >= ")] ++ first.2
  else if op = ">=" then [code (column ++ " >= ")] ++ first.1
  else if op = "<" then [code (column ++ " < ")] ++ first.1
  else [code (column ++ " < ")] ++ first.2

variable {code} {words words' : List (Word (List π))}

@[simp] theorem wordsSql_atom (atom : Atom (List π)) : wordsSql code [.atom atom] = atomSql code atom :=
  List.append_nil _

@[simp] theorem wordsSql_bracketed (words : List (Word (List π))) :
    wordsSql code (bracketed words) = [code "("] ++ wordsSql code words ++ [code ")"] := by
  simp [bracketed, wordsSql, wordSql]

@[simp] theorem wordsSql_conjoined (words words' : List (Word (List π))) :
    wordsSql code (conjoined words words') =
      wordsSql code words ++ [code " AND "] ++ wordsSql code words' := by
  simp [conjoined, wordsSql, wordSql]

theorem wordsSql_joinedWords {word : Word (List π)} {separator : String}
    (h : wordSql code word = [code separator]) (parts : List (List (Word (List π)))) :
    wordsSql code (joinedWords word parts) = joinedSql code separator (parts.map (wordsSql code)) := by
  have hword : wordsSql code [word] = [code separator] := by simp [wordsSql, h]
  rw [joinedWords, joinedSql, wordsSql, flatMap_flatten, ← hword, map_intersperse]
  rfl

theorem joinedSql_pair (separator : String) (value value' : List π) :
    joinedSql code separator [value, value'] = value ++ [code separator] ++ value' := by
  simp [joinedSql]

/-- How the parts of an SQL text are written, one after the other. -/
structure Writer (code : String → π) (write : List π → List Char) : Prop where
  append : ∀ pieces pieces', write (pieces ++ pieces') = write pieces ++ write pieces'
  code_cons : ∀ text pieces, write (code text :: pieces) = text.toList ++ write pieces
  nil : write [] = []

variable {write : List π → List Char} (hwrite : Writer code write)
include hwrite

theorem Writer.joinedSql_congr (separator : String) {parts parts' : List (List π)}
    (h : List.Forall₂ (fun part part' ↦ write part = write part') parts parts') :
    write (joinedSql code separator parts) = write (joinedSql code separator parts') := by
  have hflatten (parts : List (List π)) : write parts.flatten = (parts.map write).flatten := by
    induction parts with
    | nil => exact hwrite.nil
    | cons part parts ih => rw [List.flatten_cons, hwrite.append, ih, List.map_cons, List.flatten_cons]
  have hmap : parts.map write = parts'.map write := by
    rw [← List.forall₂_eq_eq_eq, List.forall₂_map_left_iff, List.forall₂_map_right_iff]
    exact h
  rw [joinedSql, joinedSql, hflatten, hflatten, map_intersperse, map_intersperse, hmap]

theorem Writer.withinWords (column : String) (bounds : List π × List π) :
    write (wordsSql code (Filter.withinWords [code column] bounds)) =
      write (withinSql code column bounds) := by
  simp [Filter.withinWords, atomSql, comparatorText, withinSql, hwrite.append, hwrite.code_cons]

theorem Writer.outsideWords (column : String) (bounds : List π × List π) :
    write (wordsSql code (Filter.outsideWords [code column] bounds)) =
      write (outsideSql code column bounds) := by
  have hor := @wordsSql_joinedWords _ code .disj " OR " rfl
  simp [Filter.outsideWords, hor, joinedSql_pair, atomSql, comparatorText, outsideSql, hwrite.append,
    hwrite.code_cons, hwrite.nil]

theorem Writer.compare (column : String) (comparator : Comparator) (value : List π) :
    write (wordsSql code [.atom (.compare [code column] comparator value)]) =
      write ([code (column ++ comparatorText comparator)] ++ value) := by
  simp [atomSql, hwrite.code_cons]

/-- The words of a range are written as its text. -/
theorem Writer.rangeWords {column op : String} {bounds : List (List π × List π)}
    (h : Filter.rangeWords [code column] op bounds = some words) :
    write (wordsSql code words) = write (rangeSql code column op bounds) := by
  have hor := @wordsSql_joinedWords _ code .disj " OR " rfl
  have hand := @wordsSql_joinedWords _ code .conj " AND " rfl
  rw [Filter.rangeWords] at h
  rw [rangeSql]
  by_cases hin : op = "IN" ∨ op = "=[]"
  · rw [if_pos hin] at h ⊢
    obtain rfl := Option.some.inj h
    rw [wordsSql_bracketed, hor, hwrite.append, hwrite.append, List.map_map, hwrite.append,
      hwrite.append]
    congr 2
    apply hwrite.joinedSql_congr
    rw [List.forall₂_map_left_iff, List.forall₂_map_right_iff, List.forall₂_same]
    intro b _
    simp only [Function.comp, wordsSql_bracketed, hwrite.append, hwrite.withinWords]
  rw [if_neg hin] at h ⊢
  by_cases hnotIn : op = "NOT IN" ∨ op = "![]"
  · rw [if_pos hnotIn] at h ⊢
    obtain rfl := Option.some.inj h
    rw [wordsSql_bracketed, hand, hwrite.append, hwrite.append, List.map_map, hwrite.append,
      hwrite.append]
    congr 2
    apply hwrite.joinedSql_congr
    rw [List.forall₂_map_left_iff, List.forall₂_map_right_iff, List.forall₂_same]
    intro b _
    exact hwrite.outsideWords column b
  rw [if_neg hnotIn] at h ⊢
  obtain ⟨first, hfirst, h⟩ := Option.bind_eq_some_iff.mp h
  have hhead : bounds.headD ([], []) = first := by
    rw [List.headD_eq_head?_getD, hfirst]
    rfl
  rw [hhead]
  split_ifs at h ⊢ <;> obtain rfl := Option.some.inj h
  · exact hwrite.withinWords column first
  · exact hwrite.outsideWords column first
  · exact hwrite.compare column .ge first.2
  · exact hwrite.compare column .ge first.1
  · exact hwrite.compare column .lt first.1
  · exact hwrite.compare column .lt first.2

end Sql

end ZoneMinder.Filter
