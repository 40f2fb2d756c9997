import Mathlib.Data.Int.Notation
import ZoneMinder.MonitorLink.Grammar

namespace ZoneMinder.MonitorLink

structure Result where
  success : Bool := false
  message : String := ""
  score : ℤ := -1
  deriving DecidableEq

/-- `score` is what Token::score reports for a linked monitor; none is a dereferenced null. -/
def visit (score : Token → ℤ) : Tree → Option Result
  | .null => none
  | .node token left right =>
    if token.type = .monitorlink then some ⟨true, "", score token⟩
    else if left = .null ∨ right = .null then some ⟨false, "Missing operand", 0⟩
    else
      match token.type with
      | .logicalAnd => do
        let l ← visit score left
        let r ← visit score right
        return ⟨l.success && r.success, if l.message = "" then r.message else l.message,
          if l.score ≠ 0 ∧ r.score ≠ 0 then l.score + r.score else 0⟩
      | .logicalOr | .logicalComma => do
        let l ← visit score left
        let r ← visit score right
        return ⟨l.success || r.success, if l.message = "" then r.message else l.message,
          if l.score ≠ 0 ∨ r.score ≠ 0 then l.score + r.score else 0⟩
      | _ => some { success := false, message := "Unknown token type" }

/-- MonitorLinkExpression::result. -/
def result (score : Token → ℤ) (tree : Tree) : Option Result :=
  if tree = .null then some {} else visit score tree

variable {debug : Bool} {tokens unread rest : List Token} {tree : Tree} {rule : Rule} {fuel : ℕ}

theorem visit_safe (score : Token → ℤ) (h : tree ≠ .null) : ∃ r, visit score tree = some r := by
  induction tree with
  | null => contradiction
  | node token left right ihl ihr =>
    rw [visit]
    split
    · exact ⟨_, rfl⟩
    split
    · exact ⟨_, rfl⟩
    · next hchildren =>
      obtain ⟨hleft, hright⟩ := not_or.mp hchildren
      obtain ⟨l, hl⟩ := ihl hleft
      obtain ⟨r, hr⟩ := ihr hright
      rw [hl, hr]
      split <;> exact ⟨_, rfl⟩

theorem result_safe (score : Token → ℤ) (tree : Tree) : ∃ r, result score tree = some r := by
  rw [result]
  split
  · exact ⟨_, rfl⟩
  · next h => exact visit_safe score h

def Rule.left : Rule → Tree
  | .orOperations left | .andOperations left => left
  | _ => .null

/-- A function ends, leaves a part of what it was given unread, and less than that if it
returns a tree: so every recursive call finds fewer tokens than the one before. -/
def Parsed.Consumes (rule : Rule) (unread : List Token) : Parsed → Prop
  | .timeout => False
  | .crash => True
  | .done tree rest =>
    rest <:+ unread ∧ (tree ≠ .null → rule.left = .null → rest.length < unread.length)

theorem Parsed.Consumes.bind {parsed : Parsed} {f : Tree → List Token → Parsed} {rule' : Rule}
    {unread' : List Token} (h : parsed.Consumes rule' unread')
    (hf : ∀ tree rest, rest <:+ unread' →
      (tree ≠ .null → rule'.left = .null → rest.length < unread'.length) →
        (f tree rest).Consumes rule unread) : (parsed.bind f).Consumes rule unread := by
  cases parsed with
  | timeout => exact h
  | crash => trivial
  | done tree rest => exact hf tree rest h.1 h.2

/-- A function goes on with a loop over what an earlier one has left. -/
theorem Parsed.Consumes.trans {parsed : Parsed} {rule' : Rule} {after : List Token}
    (h : parsed.Consumes rule' after) (hsuffix : after <:+ unread)
    (hlt : rule'.left ≠ .null → after.length < unread.length) : parsed.Consumes rule unread := by
  cases parsed with
  | timeout => exact h
  | crash => trivial
  | done tree rest =>
    refine ⟨h.1.trans hsuffix, fun htree _ ↦ ?_⟩
    have hafter := hsuffix.length_le
    have hrest := h.1.length_le
    by_cases hleft : rule'.left = .null
    · have hless := h.2 htree hleft
      omega
    · have hless := hlt hleft
      omega

theorem consumes_null (h : rest <:+ unread) : (Parsed.done .null rest).Consumes rule unread :=
  ⟨h, fun hnull ↦ absurd rfl hnull⟩

/-- A loop that ends at once has its tree already. -/
theorem consumes_left (h : rule.left = tree) : (Parsed.done tree unread).Consumes rule unread :=
  ⟨List.suffix_refl _, fun hnull hleft ↦ absurd (h.symm.trans hleft) hnull⟩

/-- Every call with enough fuel of so much ends, with fewer tokens left unread. -/
def ConsumesAt (debug : Bool) (tokens : List Token) (fuel : ℕ) : Prop :=
  ∀ {rule : Rule} {unread : List Token}, rule.need unread.length ≤ fuel →
    (rule.parse debug tokens fuel unread).Consumes rule unread

theorem parseExpression_consumes (ih : ConsumesAt debug tokens fuel) (htokens : tokens.length ≠ 1)
    (hfuel : 3 * unread.length + 3 ≤ fuel + 1) :
    (parseExpression debug tokens (fuel + 1) unread).Consumes .expression unread := by
  rw [parseExpression_eq htokens]
  refine Parsed.Consumes.bind (@ih .andOperation unread (by rw [Rule.need]; omega)) ?_
  intro left after hsuffix hlt
  have hlen := hsuffix.length_le
  have hloop : (orOperations debug tokens fuel left after).Consumes .expression unread :=
    Parsed.Consumes.trans (@ih (.orOperations left) after (by rw [Rule.need]; omega)) hsuffix
      fun hleft ↦ hlt hleft rfl
  cases after with
  | nil => exact hloop
  | cons token after =>
    dsimp only
    split
    · exact hloop
    split
    · trivial
    · exact ⟨hsuffix, fun hleft _ ↦ hlt hleft rfl⟩

theorem orOperations_consumes {left : Tree} (ih : ConsumesAt debug tokens fuel)
    (hfuel : 3 * unread.length + 2 ≤ fuel + 1) :
    (orOperations debug tokens (fuel + 1) left unread).Consumes (.orOperations left) unread := by
  cases unread with
  | nil => exact consumes_left rfl
  | cons op unread =>
    rw [List.length_cons] at hfuel
    rw [orOperations]
    split
    · refine Parsed.Consumes.bind (@ih .andOperation unread (by rw [Rule.need]; omega)) ?_
      intro right after hsuffix hlt
      have hlen := hsuffix.length_le
      have hlong : after <:+ op :: unread := hsuffix.trans (List.suffix_cons op unread)
      split
      · exact consumes_null hlong
      · refine Parsed.Consumes.trans
          (@ih (.orOperations _) after (by rw [Rule.need]; omega)) hlong fun _ ↦ ?_
        rw [List.length_cons]
        omega
    · exact consumes_left rfl

theorem parseAndOperation_consumes (ih : ConsumesAt debug tokens fuel)
    (hfuel : 3 * unread.length + 2 ≤ fuel + 1) :
    (parseAndOperation debug tokens (fuel + 1) unread).Consumes .andOperation unread := by
  rw [parseAndOperation]
  refine Parsed.Consumes.bind (@ih .parentheses unread (by rw [Rule.need]; omega)) ?_
  intro left after hsuffix hlt
  have hlen := hsuffix.length_le
  split
  · exact consumes_null hsuffix
  · exact Parsed.Consumes.trans (@ih (.andOperations left) after (by rw [Rule.need]; omega))
      hsuffix fun hleft ↦ hlt hleft rfl

theorem andOperations_consumes {left : Tree} (ih : ConsumesAt debug tokens fuel)
    (hfuel : 3 * unread.length + 1 ≤ fuel + 1) :
    (andOperations debug tokens (fuel + 1) left unread).Consumes (.andOperations left) unread := by
  cases unread with
  | nil => exact consumes_left rfl
  | cons op unread =>
    rw [List.length_cons] at hfuel
    rw [andOperations]
    split
    · refine Parsed.Consumes.bind (@ih .parentheses unread (by rw [Rule.need]; omega)) ?_
      intro right after hsuffix hlt
      have hlen := hsuffix.length_le
      have hlong : after <:+ op :: unread := hsuffix.trans (List.suffix_cons op unread)
      split
      · exact consumes_null hlong
      · refine Parsed.Consumes.trans
          (@ih (.andOperations _) after (by rw [Rule.need]; omega)) hlong fun _ ↦ ?_
        rw [List.length_cons]
        omega
    · exact consumes_left rfl

theorem parseParentheses_consumes (ih : ConsumesAt debug tokens fuel)
    (hfuel : 3 * unread.length + 1 ≤ fuel + 1) :
    (parseParentheses debug tokens (fuel + 1) unread).Consumes .parentheses unread := by
  cases unread with
  | nil => exact consumes_null (List.suffix_refl _)
  | cons token unread =>
    rw [List.length_cons] at hfuel
    rw [parseParentheses]
    split
    · refine Parsed.Consumes.bind (@ih .expression unread (by rw [Rule.need]; omega)) ?_
      intro tree after hsuffix _
      have hlong : after <:+ token :: unread := hsuffix.trans (List.suffix_cons token unread)
      cases after with
      | nil => exact consumes_null hlong
      | cons next after =>
        have hrest : after <:+ token :: unread := (List.suffix_cons next after).trans hlong
        have hlen := hlong.length_le
        rw [List.length_cons] at hlen
        dsimp only
        split
        · exact ⟨hrest, fun _ _ ↦ by omega⟩
        · exact consumes_null hrest
    split
    · exact ⟨List.suffix_cons token unread, fun _ _ ↦ by rw [List.length_cons]; omega⟩
    · exact consumes_null (List.suffix_refl _)

theorem parse_consumes (htokens : tokens.length ≠ 1) (fuel : ℕ) :
    ConsumesAt debug tokens fuel := by
  induction fuel with
  | zero =>
    intro rule
    cases rule <;> exact nofun
  | succ fuel ih =>
    intro rule unread hfuel
    cases rule with
    | expression => exact parseExpression_consumes ih htokens hfuel
    | orOperations left => exact orOperations_consumes ih hfuel
    | andOperation => exact parseAndOperation_consumes ih hfuel
    | andOperations left => exact andOperations_consumes ih hfuel
    | parentheses => exact parseParentheses_consumes ih hfuel

/-- Where a reader stands who goes through the tokens once, from left to right. `first` says
that the conjunction being read is the first of its expression, `outer` the same of the
expressions around it, from the inside out. -/
inductive Reading
  | operand (first : Bool) (outer : List Bool)
  | operator (first : Bool) (outer : List Bool)
  | missing (first : Bool) (outer : List Bool)
  | stopped
  | dereferenced
  deriving DecidableEq

/-- An expression ends without a tree, and with it the operand it was to be. -/
def giveUp : List Bool → Reading
  | [] => .stopped
  | first :: outer => .missing first outer

/-- Behind a missing operand: the first conjunction of an expression can only be followed by
an or, any other one ends its expression. -/
def missingStep (first : Bool) (outer : List Bool) (token : Token) : Reading :=
  if first then if token.isOr then .operand false outer else .dereferenced
  else giveUp outer

/-- Behind an expression: what follows has to close its parenthesis. -/
def closeStep (token : Token) : List Bool → Reading
  | [] => .stopped
  | first :: outer => if token.type = .rp then .operator first outer else .missing first outer

def Reading.step : Reading → Token → Reading
  | .operand first outer, token =>
    if token.type = .lp then .operand true (first :: outer)
    else if token.type = .monitorlink then .operator first outer
    else missingStep first outer token
  | .operator first outer, token =>
    if token.type = .logicalAnd then .operand first outer
    else if token.isOr then .operand false outer
    else closeStep token outer
  | .missing first outer, token => missingStep first outer token
  | .stopped, _ => .stopped
  | .dereferenced, _ => .dereferenced

/-- The reader comes to dereference the missing operand. -/
def Loses (reading : Reading) (tokens : List Token) : Prop :=
  tokens.foldl Reading.step reading = .dereferenced

instance (reading : Reading) (tokens : List Token) : Decidable (Loses reading tokens) :=
  inferInstanceAs (Decidable (_ = _))

/-- The first conjunction of the expression, or of one in parentheses that is reached, is
incomplete and a token follows that is neither '|' nor ','. -/
def LosesOperand (tokens : List Token) : Prop :=
  tokens.length ≠ 1 ∧ Loses (.operand true []) tokens

theorem loses_cons (reading : Reading) (token : Token) :
    Loses reading (token :: rest) ↔ Loses (reading.step token) rest := Iff.rfl

theorem loses_dereferenced (tokens : List Token) : Loses .dereferenced tokens := by
  induction tokens with
  | nil => rfl
  | cons token tokens ih => exact ih

theorem not_loses_stopped (tokens : List Token) : ¬Loses .stopped tokens := by
  induction tokens with
  | nil => exact nofun
  | cons token tokens ih => exact ih

/-- Where the reader stands when a function or loop starts. -/
def Rule.start (first : Bool) (outer : List Bool) : Rule → Reading
  | .expression => .operand true outer
  | .orOperations left => if left = .null then .missing true outer else .operator first outer
  | .andOperation | .parentheses => .operand first outer
  | .andOperations _ => .operator first outer

/-- Where it stands when a tree is returned; an expression is over by then. -/
def Rule.finish (first : Bool) (outer : List Bool) (tree : Tree) : Rule → Reading
  | .expression | .orOperations _ =>
    if tree = .null then .missing false outer else .operator false outer
  | .andOperation | .andOperations _ | .parentheses =>
    if tree = .null then .missing first outer else .operator first outer

def Rule.Entered (unread : List Token) : Rule → Prop
  | .orOperations left =>
    (left = .null → ∀ token ∈ unread.head?, token.isOr = true) ∧ (left ≠ .null → NoAnd unread)
  | .andOperations left => left ≠ .null
  | _ => True

/-- The reader follows the parser. -/
def Parsed.Follows (rule : Rule) (first : Bool) (outer : List Bool) (unread : List Token) :
    Parsed → Prop
  | .timeout => True
  | .crash => Loses (rule.start first outer) unread
  | .done tree rest =>
    (Loses (rule.start first outer) unread ↔ Loses (rule.finish first outer tree) rest) ∧
      (tree ≠ .null → rule.Stops rest)

section

variable {parsed : Parsed} {f : Tree → List Token → Parsed} {rule' : Rule} {first first' : Bool}
  {outer outer' : List Bool} {unread' : List Token} {token : Token}

theorem Parsed.Follows.bind (h : parsed.Follows rule' first' outer' unread')
    (hstart : Loses (rule.start first outer) unread ↔ Loses (rule'.start first' outer') unread')
    (hf : ∀ tree rest,
      (Loses (rule.start first outer) unread ↔ Loses (rule'.finish first' outer' tree) rest) →
        (tree ≠ .null → rule'.Stops rest) → (f tree rest).Follows rule first outer unread) :
    (parsed.bind f).Follows rule first outer unread := by
  cases parsed with
  | timeout => trivial
  | crash => exact hstart.mpr h
  | done tree rest => exact hf tree rest (hstart.trans h.1) h.2

theorem follows_null (h : Loses (rule.start first outer) unread ↔
    Loses (rule.finish first outer .null) rest) :
    (Parsed.done .null rest).Follows rule first outer unread :=
  ⟨h, fun hne ↦ absurd rfl hne⟩

theorem Parsed.Follows.trans (h : parsed.Follows rule' first' outer' unread')
    (hstart : Loses (rule.start first outer) unread ↔ Loses (rule'.start first' outer') unread')
    (hfinish : ∀ tree, rule'.finish first' outer' tree = rule.finish first outer tree)
    (hstops : ∀ rest, rule'.Stops rest → rule.Stops rest) :
    parsed.Follows rule first outer unread := by
  cases parsed with
  | timeout => trivial
  | crash => exact hstart.mpr h
  | done tree rest =>
    refine ⟨?_, fun hnull ↦ hstops rest (h.2 hnull)⟩
    rw [← hfinish]
    exact hstart.trans h.1

theorem Rule.start_ne (rule : Rule) : rule.start first outer ≠ .dereferenced := by
  cases rule with
  | orOperations left =>
    rw [Rule.start]
    split
    · simp
    · simp
  | expression | andOperation | andOperations | parentheses => simp [Rule.start]

theorem Rule.finish_ne (rule : Rule) (tree : Tree) :
    rule.finish first outer tree ≠ .dereferenced := by
  by_cases hnull : tree = .null
  · cases rule <;> simp [Rule.finish, hnull]
  · cases rule <;> simp [Rule.finish, hnull]

/-- Once all the tokens are read no operand is lost any more. -/
theorem loses_nil_iff {reading reading' : Reading} (h : reading ≠ .dereferenced)
    (h' : reading' ≠ .dereferenced) : Loses reading [] ↔ Loses reading' [] := iff_of_false h h'

theorem step_operator (hand : token.type ≠ .logicalAnd) (hor : token.isOr = false) :
    Reading.step (.operator first outer) token = closeStep token outer := by
  rw [Reading.step, if_neg hand, hor]
  rfl

/-- Behind an expression it no longer matters how many conjunctions it had. -/
theorem loses_operator (hand : NoAnd unread) (hor : NoOr unread) :
    Loses (.operator first outer) unread ↔ Loses (.operator first' outer) unread := by
  cases unread with
  | nil => exact loses_nil_iff Reading.noConfusion Reading.noConfusion
  | cons token unread =>
    rw [loses_cons, loses_cons, step_operator (hand token rfl) (hor token rfl),
      step_operator (hand token rfl) (hor token rfl)]

theorem step_isOr {left : Tree} (hor : token.isOr = true) :
    ((Rule.orOperations left).start first outer).step token = .operand false outer := by
  rw [Rule.start]
  split
  · exact if_pos hor
  · rw [Reading.step, if_neg (Token.isOr_ne_and hor), if_pos hor]

end

/-- The reader follows every call with so much fuel. -/
def FollowsAt (tokens : List Token) (fuel : ℕ) : Prop :=
  ∀ {rule : Rule} {unread : List Token} (first : Bool) (outer : List Bool), rule.Entered unread →
    (rule.parse true tokens fuel unread).Follows rule first outer unread

section

variable {left : Tree} {first first' : Bool} {outer : List Bool}

theorem parseExpression_follows (ih : FollowsAt tokens fuel) (htokens : tokens.length ≠ 1) :
    (parseExpression true tokens (fuel + 1) unread).Follows .expression first outer unread := by
  rw [parseExpression_eq htokens]
  refine Parsed.Follows.bind (@ih .andOperation unread true outer trivial) Iff.rfl ?_
  intro left after hreads hstops
  have hloop (hor : left = .null → ∀ token ∈ after.head?, token.isOr = true) :
      (orOperations true tokens fuel left after).Follows .expression first outer unread :=
    Parsed.Follows.trans (@ih (.orOperations left) after true outer ⟨hor, hstops⟩) hreads
      (fun _ ↦ rfl) fun _ ↦ id
  cases after with
  | nil => exact hloop fun _ ↦ by simp
  | cons token after =>
    dsimp only
    split
    · next hor =>
      refine hloop fun _ ↦ ?_
      rintro token' ⟨⟩
      exact hor
    · next hor =>
      have hno : token.isOr = false := Bool.eq_false_iff.mpr hor
      split
      · next hnull =>
        rw [Rule.finish, if_pos hnull.2] at hreads
        refine hreads.mpr ((loses_cons _ _).mpr ?_)
        rw [Reading.step, missingStep, if_pos rfl, hno]
        exact loses_dereferenced after
      · next hnull =>
        have hleft : left ≠ .null := fun hleft ↦ hnull ⟨rfl, hleft⟩
        have hnoOr : NoOr (token :: after) := noOr_cons hno
        rw [Rule.finish, if_neg hleft] at hreads
        refine ⟨?_, fun _ ↦ ⟨hstops hleft, hnoOr⟩⟩
        rw [Rule.finish, if_neg hleft]
        exact hreads.trans (loses_operator (hstops hleft) hnoOr)

theorem orOperations_follows (ih : FollowsAt tokens fuel)
    (hentered : (Rule.orOperations left).Entered unread) :
    (orOperations true tokens (fuel + 1) left unread).Follows (.orOperations left) first outer
      unread := by
  cases unread with
  | nil =>
    exact ⟨loses_nil_iff (Rule.start_ne _) (Rule.finish_ne _ _), fun _ ↦ ⟨noAnd_nil, noOr_nil⟩⟩
  | cons op unread =>
    rw [orOperations]
    split
    · next hor =>
      refine Parsed.Follows.bind (@ih .andOperation unread false outer trivial) ?_ ?_
      · rw [loses_cons, step_isOr hor]
        rfl
      · intro right after hreads hstops
        split
        · next hnull =>
          rw [hnull] at hreads
          exact follows_null hreads
        · next hnull =>
          rw [Rule.finish, if_neg hnull] at hreads
          exact Parsed.Follows.trans (@ih (.orOperations _) after false outer
            ⟨Tree.noConfusion, fun _ ↦ hstops hnull⟩) hreads (fun _ ↦ rfl) fun _ ↦ id
    · next hor =>
      have hleft : left ≠ .null := fun hnull ↦ hor (hentered.1 hnull op rfl)
      have hnoOr : NoOr (op :: unread) := noOr_cons (Bool.eq_false_iff.mpr hor)
      refine ⟨?_, fun _ ↦ ⟨hentered.2 hleft, hnoOr⟩⟩
      rw [Rule.start, Rule.finish, if_neg hleft, if_neg hleft]
      exact loses_operator (hentered.2 hleft) hnoOr

theorem parseAndOperation_follows (ih : FollowsAt tokens fuel) :
    (parseAndOperation true tokens (fuel + 1) unread).Follows .andOperation first outer unread := by
  rw [parseAndOperation]
  refine Parsed.Follows.bind (@ih .parentheses unread first outer trivial) Iff.rfl ?_
  intro left after hreads _
  split
  · next hnull =>
    rw [hnull] at hreads
    exact follows_null hreads
  · next hnull =>
    rw [Rule.finish, if_neg hnull] at hreads
    exact Parsed.Follows.trans (@ih (.andOperations left) after first outer hnull) hreads
      (fun _ ↦ rfl) fun _ ↦ id

theorem andOperations_follows (ih : FollowsAt tokens fuel) (hleft : left ≠ .null) :
    (andOperations true tokens (fuel + 1) left unread).Follows (.andOperations left) first outer
      unread := by
  have hdone {rest : List Token} (h : NoAnd rest) :
      (Parsed.done left rest).Follows (.andOperations left) first outer rest := by
    refine ⟨?_, fun _ ↦ h⟩
    rw [Rule.start, Rule.finish, if_neg hleft]
  cases unread with
  | nil => exact hdone noAnd_nil
  | cons op unread =>
    rw [andOperations]
    split
    · next hand =>
      refine Parsed.Follows.bind (@ih .parentheses unread first outer trivial) ?_ ?_
      · have hstep : Reading.step (.operator first outer) op = .operand first outer := if_pos hand
        change Loses (Reading.step (.operator first outer) op) unread ↔ _
        rw [hstep]
        rfl
      · intro right after hreads _
        split
        · next hnull =>
          rw [hnull] at hreads
          exact follows_null hreads
        · next hnull =>
          rw [Rule.finish, if_neg hnull] at hreads
          exact Parsed.Follows.trans (@ih (.andOperations _) after first outer Tree.noConfusion) hreads
            (fun _ ↦ rfl) fun _ ↦ id
    · next hand => exact hdone (noAnd_cons hand)

/-- The expression in the parentheses is over, whatever follows it. -/
theorem loses_closed {tree : Tree} {next : Token} {after : List Token}
    (hstops : tree ≠ .null → Rule.expression.Stops (next :: after)) :
    Loses (Rule.expression.finish first (first' :: outer) tree) (next :: after) ↔
      Loses (if tree ≠ .null ∧ next.type = .rp then .operator first' outer
        else .missing first' outer) after := by
  rw [loses_cons, Rule.finish]
  by_cases hnull : tree = .null
  · rw [if_pos hnull, if_neg fun h ↦ h.1 hnull]
    rfl
  · obtain ⟨hand, hor⟩ := hstops hnull
    rw [if_neg hnull, step_operator (hand next rfl) (hor next rfl), closeStep]
    simp only [ne_eq, hnull, not_false_eq_true, true_and]

theorem parseParentheses_follows (ih : FollowsAt tokens fuel) :
    (parseParentheses true tokens (fuel + 1) unread).Follows .parentheses first outer unread := by
  cases unread with
  | nil => exact follows_null (loses_nil_iff (Rule.start_ne _) (Rule.finish_ne _ _))
  | cons token unread =>
    rw [parseParentheses]
    split
    · next hlp =>
      refine Parsed.Follows.bind (@ih .expression unread first (first :: outer) trivial) ?_ ?_
      · have hstep : Reading.step (.operand first outer) token = .operand true (first :: outer) :=
          if_pos hlp
        change Loses (Reading.step (.operand first outer) token) unread ↔ _
        rw [hstep]
        rfl
      · intro tree after hreads hstops
        cases after with
        | nil =>
          refine follows_null (hreads.trans ?_)
          exact loses_nil_iff (Rule.finish_ne _ _) (Rule.finish_ne _ _)
        | cons next after =>
          have hnext := hreads.trans (loses_closed hstops)
          dsimp only
          split
          · next hrp =>
            refine ⟨hnext.trans ?_, fun _ ↦ trivial⟩
            rw [Rule.finish]
            by_cases hnull : tree = .null
            · rw [if_pos hnull, if_neg fun h ↦ h.1 hnull]
            · rw [if_neg hnull, if_pos ⟨hnull, hrp⟩]
          · next hrp =>
            rw [if_neg fun h ↦ hrp h.2] at hnext
            exact follows_null hnext
    · next hlp =>
      have hstart : Loses (Rule.start first outer .parentheses) (token :: unread) ↔ Loses
          (if token.type = .monitorlink then .operator first outer
            else missingStep first outer token) unread := by
        rw [loses_cons, Rule.start, Reading.step, if_neg hlp]
      split
      · next hlink =>
        rw [if_pos hlink] at hstart
        exact ⟨hstart, fun _ ↦ trivial⟩
      · next hlink =>
        rw [if_neg hlink] at hstart
        exact follows_null hstart

end

theorem parse_follows (htokens : tokens.length ≠ 1) (fuel : ℕ) : FollowsAt tokens fuel := by
  induction fuel with
  | zero =>
    intro rule
    cases rule <;> exact fun _ _ _ ↦ trivial
  | succ fuel ih =>
    intro rule unread first outer hentered
    cases rule with
    | expression => exact parseExpression_follows ih htokens
    | orOperations left => exact orOperations_follows ih hentered
    | andOperation => exact parseAndOperation_follows ih
    | andOperations left => exact andOperations_follows ih hentered
    | parentheses => exact parseParentheses_follows ih

theorem parseTokens_crash_iff (tokens : List Token) :
    parseTokens true tokens = .crash ↔ LosesOperand tokens := by
  rw [LosesOperand, parseTokens]
  split
  · next hnil =>
    subst hnil
    exact iff_of_false Parsed.noConfusion fun h ↦ Reading.noConfusion h.2
  · by_cases htokens : tokens.length = 1
    · obtain ⟨token, rfl⟩ := List.length_eq_one_iff.mp htokens
      exact iff_of_false Parsed.noConfusion fun h ↦ absurd rfl h.1
    · have hends := @parse_consumes true tokens htokens (3 * tokens.length + 3) .expression tokens
        (Nat.le_refl _)
      have hfollows := @parse_follows tokens htokens (3 * tokens.length + 3) .expression tokens
        true [] trivial
      rw [Rule.parse] at hends hfollows
      cases hparse : parseExpression true tokens (3 * tokens.length + 3) tokens with
      | timeout =>
        rw [hparse] at hends
        exact hends.elim
      | crash =>
        rw [hparse] at hfollows
        exact ⟨fun _ ↦ ⟨htokens, hfollows⟩, fun _ ↦ rfl⟩
      | done tree rest =>
        rw [hparse] at hfollows
        refine iff_of_false Parsed.noConfusion fun h ↦ absurd (hfollows.1.mp h.2) ?_
        -- whatever is left unread, the outermost expression is over
        cases rest with
        | nil => exact Rule.finish_ne _ _
        | cons token rest =>
          rw [loses_cons, Rule.finish]
          split
          · exact not_loses_stopped rest
          · next hnull =>
            obtain ⟨hand, hor⟩ := hfollows.2 hnull
            rw [step_operator (hand token rfl) (hor token rfl)]
            exact not_loses_stopped rest

/-- Parsing ends on every expression, a recursive call always finds fewer tokens than the call
it is made from, and no null child is visited; the Debug call of parse_expression is safe
exactly if no expression it reads loses its operand. -/
theorem linked_monitors_safe (score : Token → ℤ) (expression : List Char) :
    parse true expression ≠ .timeout ∧
    (∀ (tokens unread : List Token) (fuel : ℕ), tokens.length ≠ 1 → 3 * unread.length + 3 ≤ fuel →
      (parseExpression true tokens fuel unread).Consumes .expression unread) ∧
    (∀ tree rest, parse true expression = .done tree rest → ∃ r, result score tree = some r) ∧
    (parse true expression ≠ .crash ↔ ¬LosesOperand (tokenize expression)) := by
  refine ⟨?_, ?_, fun tree rest _ ↦ result_safe score tree, ?_⟩
  · rw [parse, parseTokens]
    split
    · exact Parsed.noConfusion
    · intro htimeout
      by_cases htokens : (tokenize expression).length = 1
      · obtain ⟨token, hone⟩ := List.length_eq_one_iff.mp htokens
        rw [hone] at htimeout
        contradiction
      · have hends := @parse_consumes true _ htokens _ .expression _
          (Nat.le_refl (3 * (tokenize expression).length + 3))
        rw [Rule.parse, htimeout] at hends
        exact hends
  · intro tokens unread fuel htokens hfuel
    exact @parse_consumes true tokens htokens fuel .expression unread hfuel
  · exact not_congr (parseTokens_crash_iff (tokenize expression))

/-- An operator where the first operand should be, as in `&1`. -/
theorem leading_operator_dereferenced : parse true ['&', '1'] = .crash := by decide

end ZoneMinder.MonitorLink
