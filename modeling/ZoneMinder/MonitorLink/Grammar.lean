import ZoneMinder.MonitorLink.Parser

namespace ZoneMinder.MonitorLink

/-- The functions of the parser and their loops, with the tree a loop starts from. -/
inductive Rule
  | expression
  | orOperations (left : Tree)
  | andOperation
  | andOperations (left : Tree)
  | parentheses

section

variable (debug : Bool) (tokens : List Token)

def Rule.parse (fuel : ℕ) (unread : List Token) : Rule → Parsed
  | .expression => parseExpression debug tokens fuel unread
  | .orOperations left => MonitorLink.orOperations debug tokens fuel left unread
  | .andOperation => parseAndOperation debug tokens fuel unread
  | .andOperations left => MonitorLink.andOperations debug tokens fuel left unread
  | .parentheses => parseParentheses debug tokens fuel unread

end

/-- The grammar Expr := And (('|' or ',') And)*, And := Prim ('&' Prim)*, Prim := monitorlink
or '(' Expr ')', with the tree of each derivation. A loop extends the tree on its left. -/
inductive Derives : Rule → List Token → Tree → Prop
  | expression {left tree : Tree} {ts us : List Token} :
      Derives .andOperation ts left → Derives (.orOperations left) us tree →
        Derives .expression (ts ++ us) tree
  | orEnd (left : Tree) : Derives (.orOperations left) [] left
  | orOperation {left right tree : Tree} {op : Token} {ts us : List Token} :
      op.isOr = true → Derives .andOperation ts right →
        Derives (.orOperations (.node ⟨.logicalOr, []⟩ left right)) us tree →
          Derives (.orOperations left) (op :: (ts ++ us)) tree
  | andOperation {left tree : Tree} {ts us : List Token} :
      Derives .parentheses ts left → Derives (.andOperations left) us tree →
        Derives .andOperation (ts ++ us) tree
  | andEnd (left : Tree) : Derives (.andOperations left) [] left
  | andOperations {left right tree : Tree} {op : Token} {ts us : List Token} :
      op.type = .logicalAnd → Derives .parentheses ts right →
        Derives (.andOperations (.node ⟨.logicalAnd, []⟩ left right)) us tree →
          Derives (.andOperations left) (op :: (ts ++ us)) tree
  | monitorlink {link : Token} :
      link.type = .monitorlink → Derives .parentheses [link] (.ofToken link)
  | parentheses {tree : Tree} {lp rp : Token} {ts : List Token} :
      lp.type = .lp → rp.type = .rp → Derives .expression ts tree →
        Derives .parentheses (lp :: (ts ++ [rp])) tree

/-- No operand is missing: every node is a monitor link or has both its children. -/
def Tree.Complete : Tree → Prop
  | .null => False
  | .node token left right => token.type = .monitorlink ∨ left.Complete ∧ right.Complete

def Rule.Complete : Rule → Prop
  | .orOperations left | .andOperations left => left.Complete
  | _ => True

theorem Tree.Complete.ne_null {tree : Tree} (h : tree.Complete) : tree ≠ .null := by
  rintro rfl
  exact h

variable {debug : Bool} {tokens read unread rest : List Token} {tree : Tree} {rule : Rule} {fuel : ℕ}

theorem Derives.complete (h : Derives rule read tree) (hrule : rule.Complete) : tree.Complete := by
  induction h with
  | expression _ _ iha iho => exact iho (iha trivial)
  | orEnd => exact hrule
  | orOperation _ _ _ iha iho => exact iho (.inr ⟨hrule, iha trivial⟩)
  | andOperation _ _ ihp iha => exact iha (ihp trivial)
  | andEnd => exact hrule
  | andOperations _ _ _ ihp iha => exact iha (.inr ⟨hrule, ihp trivial⟩)
  | monitorlink hlink => exact .inl hlink
  | parentheses _ _ _ ih => exact ih trivial

def NoAnd (unread : List Token) : Prop := ∀ token ∈ unread.head?, token.type ≠ .logicalAnd

def NoOr (unread : List Token) : Prop := ∀ token ∈ unread.head?, token.isOr = false

theorem noAnd_nil : NoAnd [] := by
  rintro token ⟨⟩

theorem noOr_nil : NoOr [] := by
  rintro token ⟨⟩

theorem noAnd_cons {token : Token} (h : token.type ≠ .logicalAnd) : NoAnd (token :: rest) := by
  rintro token ⟨⟩
  exact h

theorem noOr_cons {token : Token} (h : token.isOr = false) : NoOr (token :: rest) := by
  rintro token ⟨⟩
  exact h

/-- What a rule leaves unread does not continue it. -/
def Rule.Stops (rest : List Token) : Rule → Prop
  | .expression | .orOperations _ => NoAnd rest ∧ NoOr rest
  | .andOperation | .andOperations _ => NoAnd rest
  | .parentheses => True

/-- Enough fuel for a rule with so many tokens unread. -/
def Rule.need (unread : ℕ) : Rule → ℕ
  | .expression => 3 * unread + 3
  | .orOperations _ | .andOperation => 3 * unread + 2
  | .andOperations _ | .parentheses => 3 * unread + 1

theorem Token.isOr_ne_and {token : Token} (h : token.isOr = true) : token.type ≠ .logicalAnd := by
  intro hand
  rw [Token.isOr, hand] at h
  contradiction

theorem parseExpression_eq (htokens : tokens.length ≠ 1) :
    parseExpression debug tokens (fuel + 1) unread =
      (parseAndOperation debug tokens fuel unread).bind fun left unread ↦
        match unread with
        | [] => orOperations debug tokens fuel left unread
        | token :: _ =>
          if token.isOr then orOperations debug tokens fuel left unread
          else if debug ∧ left = .null then .crash
          else .done left unread := by
  match tokens, htokens with
  | [], _ => rfl
  | _ :: _ :: _, _ => rfl

theorem orOperations_stops {left : Tree} (h : NoOr unread) :
    orOperations debug tokens (fuel + 1) left unread = .done left unread := by
  cases unread with
  | nil => rfl
  | cons token rest =>
    rw [orOperations, h token rfl]
    rfl

theorem andOperations_stops {left : Tree} (h : NoAnd unread) :
    andOperations debug tokens (fuel + 1) left unread = .done left unread := by
  cases unread with
  | nil => rfl
  | cons token rest => rw [andOperations, if_neg (h token rfl)]

theorem parseExpression_of_done {left : Tree} (htokens : tokens.length ≠ 1) (hleft : left ≠ .null)
    (h : parseAndOperation debug tokens (fuel + 1) unread = .done left rest) :
    parseExpression debug tokens (fuel + 2) unread = orOperations debug tokens (fuel + 1) left rest := by
  rw [parseExpression_eq htokens, h, Parsed.bind]
  cases rest with
  | nil => rfl
  | cons token rest =>
    dsimp only
    cases hor : token.isOr with
    | true => rfl
    | false =>
      rw [orOperations, hor, if_neg Bool.false_ne_true, if_neg fun hnull ↦ hleft hnull.2]
      rfl

theorem NoAnd.append {us : List Token} (hrest : NoAnd rest)
    (hus : ∀ token ∈ us.head?, token.isOr = true) : NoAnd (us ++ rest) := by
  cases us with
  | nil => exact hrest
  | cons token us =>
    rintro token' htoken
    obtain rfl : token = token' := by simpa using htoken
    exact Token.isOr_ne_and (hus token rfl)

theorem Derives.head_isOr {left : Tree} (h : Derives (.orOperations left) read tree) :
    ∀ token ∈ read.head?, token.isOr = true := by
  cases h with
  | orEnd => simp
  | orOperation hop => simpa using hop

/-- The parser finds every derivation that what follows does not continue. -/
theorem Derives.parse (h : Derives rule read tree) (hrule : rule.Complete)
    (htokens : tokens.length ≠ 1) (hstops : rule.Stops rest)
    (hfuel : rule.need (read ++ rest).length ≤ fuel) :
    rule.parse debug tokens fuel (read ++ rest) = .done tree rest := by
  induction h generalizing rest fuel with
  | @expression left tree ts us ha ho iha iho =>
    have hleft := ha.complete trivial
    rw [List.append_assoc] at hfuel ⊢
    have hsum := (List.suffix_append ts (us ++ rest)).length_le
    rw [Rule.need] at hfuel
    obtain ⟨fuel, rfl⟩ := Nat.exists_eq_add_of_le' (show 2 ≤ fuel by omega)
    have hthis : parseAndOperation debug tokens (fuel + 1) (ts ++ (us ++ rest)) =
        .done left (us ++ rest) :=
      @iha (us ++ rest) (fuel + 1) trivial (hstops.1.append ho.head_isOr) (by rw [Rule.need]; omega)
    rw [Rule.parse, parseExpression_of_done htokens hleft.ne_null hthis]
    exact iho hleft hstops (by rw [Rule.need]; omega)
  | orEnd left =>
    obtain ⟨fuel, rfl⟩ := Nat.exists_eq_add_of_le' (show 1 ≤ fuel by rw [Rule.need] at hfuel; omega)
    exact orOperations_stops hstops.2
  | @orOperation left right tree op ts us hop ha ho iha iho =>
    have hright := ha.complete trivial
    rw [List.cons_append, List.append_assoc] at hfuel ⊢
    have hsum := (List.suffix_append ts (us ++ rest)).length_le
    rw [Rule.need, List.length_cons] at hfuel
    obtain ⟨fuel, rfl⟩ := Nat.exists_eq_add_of_le' (show 1 ≤ fuel by omega)
    have hthis : parseAndOperation debug tokens fuel (ts ++ (us ++ rest)) =
        .done right (us ++ rest) :=
      iha trivial (hstops.1.append ho.head_isOr) (by rw [Rule.need]; omega)
    rw [Rule.parse, MonitorLink.orOperations, if_pos hop, hthis, Parsed.bind, if_neg hright.ne_null]
    exact iho (.inr ⟨hrule, hright⟩) hstops (by rw [Rule.need]; omega)
  | @andOperation left tree ts us hp ha ihp iha =>
    have hleft := hp.complete trivial
    rw [List.append_assoc] at hfuel ⊢
    have hsum := (List.suffix_append ts (us ++ rest)).length_le
    rw [Rule.need] at hfuel
    obtain ⟨fuel, rfl⟩ := Nat.exists_eq_add_of_le' (show 1 ≤ fuel by omega)
    have hthis : parseParentheses debug tokens fuel (ts ++ (us ++ rest)) = .done left (us ++ rest) :=
      ihp trivial trivial (by rw [Rule.need]; omega)
    rw [Rule.parse, parseAndOperation, hthis, Parsed.bind, if_neg hleft.ne_null]
    exact iha hleft hstops (by rw [Rule.need]; omega)
  | andEnd left =>
    obtain ⟨fuel, rfl⟩ := Nat.exists_eq_add_of_le' (show 1 ≤ fuel by rw [Rule.need] at hfuel; omega)
    exact andOperations_stops hstops
  | @andOperations left right tree op ts us hop hp ha ihp iha =>
    have hright := hp.complete trivial
    rw [List.cons_append, List.append_assoc] at hfuel ⊢
    have hsum := (List.suffix_append ts (us ++ rest)).length_le
    rw [Rule.need, List.length_cons] at hfuel
    obtain ⟨fuel, rfl⟩ := Nat.exists_eq_add_of_le' (show 1 ≤ fuel by omega)
    have hthis : parseParentheses debug tokens fuel (ts ++ (us ++ rest)) =
        .done right (us ++ rest) := ihp trivial trivial (by rw [Rule.need]; omega)
    rw [Rule.parse, MonitorLink.andOperations, if_pos hop, hthis, Parsed.bind,
      if_neg hright.ne_null]
    exact iha (.inr ⟨hrule, hright⟩) hstops (by rw [Rule.need]; omega)
  | @monitorlink link hlink =>
    obtain ⟨fuel, rfl⟩ := Nat.exists_eq_add_of_le' (show 1 ≤ fuel by rw [Rule.need] at hfuel; omega)
    rw [Rule.parse, List.singleton_append, parseParentheses, hlink]
    rfl
  | @parentheses tree lp rp ts hlp hrp he ih =>
    rw [List.cons_append, List.append_assoc, List.singleton_append] at hfuel ⊢
    rw [Rule.need, List.length_cons] at hfuel
    obtain ⟨fuel, rfl⟩ := Nat.exists_eq_add_of_le' (show 1 ≤ fuel by omega)
    have hthis : parseExpression debug tokens fuel (ts ++ rp :: rest) = .done tree (rp :: rest) := by
      refine ih trivial ⟨noAnd_cons ?_, noOr_cons ?_⟩ (by rw [Rule.need]; omega)
      · rw [hrp]
        decide
      · rw [Token.isOr, hrp]
        decide
    rw [Rule.parse, parseParentheses, if_pos hlp, hthis, Parsed.bind]
    exact if_pos hrp

theorem Parsed.bind_eq_done {parsed : Parsed} {f : Tree → List Token → Parsed}
    (h : parsed.bind f = .done tree rest) :
    ∃ left unread, parsed = .done left unread ∧ f left unread = .done tree rest := by
  cases parsed with
  | timeout => contradiction
  | crash => contradiction
  | done left unread => exact ⟨left, unread, rfl, h⟩

/-- What a rule must have stopped at; a loop is only entered behind an operand. -/
def Rule.Stopped (unread rest : List Token) : Rule → Prop
  | .expression => NoAnd rest ∧ NoOr rest
  | .orOperations _ => (NoAnd unread → NoAnd rest) ∧ NoOr rest
  | .andOperation | .andOperations _ => NoAnd rest
  | .parentheses => True

/-- A rule has read a derivation of the tree. -/
def Rule.Reads (rule : Rule) (unread rest : List Token) (tree : Tree) : Prop :=
  rule.Complete ∧ rule.Stopped unread rest ∧ ∃ read, unread = read ++ rest ∧ Derives rule read tree

/-- Every rule reads a derivation of its tree with so much fuel. -/
def ReadsAt (debug : Bool) (tokens : List Token) (fuel : ℕ) : Prop :=
  ∀ {rule : Rule} {unread rest : List Token} {tree : Tree},
    rule.parse debug tokens fuel unread = .done tree rest → tree.Complete →
      rule.Reads unread rest tree

theorem not_complete_of_null (h : Parsed.done .null unread = .done tree rest) : ¬tree.Complete := by
  intro htree
  obtain ⟨rfl, -⟩ := Parsed.done.inj h
  exact htree

theorem orOperations_reads_nothing {left : Tree} (h : Parsed.done left unread = .done tree rest)
    (htree : tree.Complete) (hor : NoOr unread) : (Rule.orOperations left).Reads unread rest tree := by
  obtain ⟨rfl, rfl⟩ := Parsed.done.inj h
  exact ⟨htree, ⟨id, hor⟩, [], rfl, .orEnd left⟩

theorem andOperations_reads_nothing {left : Tree} (h : Parsed.done left unread = .done tree rest)
    (htree : tree.Complete) (hand : NoAnd unread) :
    (Rule.andOperations left).Reads unread rest tree := by
  obtain ⟨rfl, rfl⟩ := Parsed.done.inj h
  exact ⟨htree, hand, [], rfl, .andEnd left⟩

/-- The conjunction in front and what the loop has read make the expression. -/
theorem expression_reads {left : Tree} {after : List Token}
    (hleft : left.Complete → Rule.andOperation.Reads unread after left)
    (hloop : (Rule.orOperations left).Reads after rest tree) :
    Rule.expression.Reads unread rest tree := by
  obtain ⟨hlc, hstops, us, hus, hder⟩ := hloop
  obtain ⟨-, hno, ts, hts, hderl⟩ := hleft hlc
  refine ⟨trivial, ⟨hstops.1 hno, hstops.2⟩, ts ++ us, ?_, .expression hderl hder⟩
  rw [hts, hus, List.append_assoc]

theorem parseExpression_reads (ih : ReadsAt debug tokens fuel) (htokens : tokens.length ≠ 1)
    (h : parseExpression debug tokens (fuel + 1) unread = .done tree rest)
    (htree : tree.Complete) : Rule.expression.Reads unread rest tree := by
  rw [parseExpression_eq htokens] at h
  obtain ⟨left, after, hleft, h⟩ := Parsed.bind_eq_done h
  have hconjunction := @ih .andOperation unread after left hleft
  cases after with
  | nil => exact expression_reads hconjunction (@ih (.orOperations left) _ _ _ h htree)
  | cons token after =>
    dsimp only at h
    split at h
    · exact expression_reads hconjunction (@ih (.orOperations left) _ _ _ h htree)
    · next hor =>
      split at h
      · contradiction
      · have hno : NoOr (token :: after) := noOr_cons (Bool.eq_false_iff.mpr hor)
        exact expression_reads hconjunction (orOperations_reads_nothing h htree hno)

theorem orOperations_reads {left : Tree} (ih : ReadsAt debug tokens fuel)
    (h : orOperations debug tokens (fuel + 1) left unread = .done tree rest)
    (htree : tree.Complete) : (Rule.orOperations left).Reads unread rest tree := by
  cases unread with
  | nil => exact orOperations_reads_nothing h htree noOr_nil
  | cons op unread =>
    rw [orOperations] at h
    split at h
    · next hop =>
      obtain ⟨right, after, hright, h⟩ := Parsed.bind_eq_done h
      split at h
      · exact absurd htree (not_complete_of_null h)
      · obtain ⟨hnode, hstops, us, hus, hder⟩ := @ih (.orOperations _) _ _ _ h htree
        obtain ⟨hlc, hrc⟩ := hnode.resolve_left (by decide)
        obtain ⟨-, hno, ts, hts, hderr⟩ := @ih .andOperation _ _ _ hright hrc
        refine ⟨hlc, ⟨fun _ ↦ hstops.1 hno, hstops.2⟩, op :: (ts ++ us), ?_,
          .orOperation hop hderr hder⟩
        rw [hts, hus, List.cons_append, List.append_assoc]
    · next hop =>
      exact orOperations_reads_nothing h htree (noOr_cons (Bool.eq_false_iff.mpr hop))

theorem parseAndOperation_reads (ih : ReadsAt debug tokens fuel)
    (h : parseAndOperation debug tokens (fuel + 1) unread = .done tree rest)
    (htree : tree.Complete) : Rule.andOperation.Reads unread rest tree := by
  rw [parseAndOperation] at h
  obtain ⟨left, after, hleft, h⟩ := Parsed.bind_eq_done h
  split at h
  · exact absurd htree (not_complete_of_null h)
  · obtain ⟨hlc, hstops, us, hus, hder⟩ := @ih (.andOperations left) _ _ _ h htree
    obtain ⟨-, -, ts, hts, hderl⟩ := @ih .parentheses _ _ _ hleft hlc
    refine ⟨trivial, hstops, ts ++ us, ?_, .andOperation hderl hder⟩
    rw [hts, hus, List.append_assoc]

theorem andOperations_reads {left : Tree} (ih : ReadsAt debug tokens fuel)
    (h : andOperations debug tokens (fuel + 1) left unread = .done tree rest)
    (htree : tree.Complete) : (Rule.andOperations left).Reads unread rest tree := by
  cases unread with
  | nil => exact andOperations_reads_nothing h htree noAnd_nil
  | cons op unread =>
    rw [andOperations] at h
    split at h
    · next hop =>
      obtain ⟨right, after, hright, h⟩ := Parsed.bind_eq_done h
      split at h
      · exact absurd htree (not_complete_of_null h)
      · obtain ⟨hnode, hstops, us, hus, hder⟩ := @ih (.andOperations _) _ _ _ h htree
        obtain ⟨hlc, hrc⟩ := hnode.resolve_left (by decide)
        obtain ⟨-, -, ts, hts, hderr⟩ := @ih .parentheses _ _ _ hright hrc
        refine ⟨hlc, hstops, op :: (ts ++ us), ?_, .andOperations hop hderr hder⟩
        rw [hts, hus, List.cons_append, List.append_assoc]
    · next hop => exact andOperations_reads_nothing h htree (noAnd_cons hop)

theorem parseParentheses_reads (ih : ReadsAt debug tokens fuel)
    (h : parseParentheses debug tokens (fuel + 1) unread = .done tree rest)
    (htree : tree.Complete) : Rule.parentheses.Reads unread rest tree := by
  refine ⟨trivial, trivial, ?_⟩
  cases unread with
  | nil => exact absurd htree (not_complete_of_null h)
  | cons token unread =>
    rw [parseParentheses] at h
    split at h
    · next hlp =>
      obtain ⟨inner, after, hinner, h⟩ := Parsed.bind_eq_done h
      cases after with
      | nil => exact absurd htree (not_complete_of_null h)
      | cons next after =>
        dsimp only at h
        split at h
        · next hrp =>
          obtain ⟨rfl, rfl⟩ := Parsed.done.inj h
          obtain ⟨-, -, ts, hts, hder⟩ := @ih .expression _ _ _ hinner htree
          refine ⟨token :: (ts ++ [next]), ?_, .parentheses hlp hrp hder⟩
          rw [hts, List.cons_append, List.append_assoc, List.singleton_append]
        · exact absurd htree (not_complete_of_null h)
    · split at h
      · next hlink =>
        obtain ⟨rfl, rfl⟩ := Parsed.done.inj h
        exact ⟨[token], rfl, .monitorlink hlink⟩
      · exact absurd htree (not_complete_of_null h)

/-- A complete tree is the derivation of the tokens it was read from. -/
theorem derives_of_parse (htokens : tokens.length ≠ 1) (fuel : ℕ) : ReadsAt debug tokens fuel := by
  induction fuel with
  | zero =>
    intro rule
    cases rule <;> exact nofun
  | succ fuel ih =>
    intro rule unread rest tree h htree
    cases rule with
    | expression => exact parseExpression_reads ih htokens h htree
    | orOperations left => exact orOperations_reads ih h htree
    | andOperation => exact parseAndOperation_reads ih h htree
    | andOperations left => exact andOperations_reads ih h htree
    | parentheses => exact parseParentheses_reads ih h htree

theorem Derives.ne_nil (h : Derives .expression read tree) : read ≠ [] := by
  rintro rfl
  have hparse := @Derives.parse false [] [] [] tree .expression 3 h trivial (by decide)
    ⟨noAnd_nil, noOr_nil⟩ (by decide)
  obtain ⟨rfl, -⟩ := Parsed.done.inj hparse
  exact (h.complete trivial).ne_null rfl

theorem Derives.singleton {token : Token} (h : Derives .expression [token] tree) :
    token.type = .monitorlink ∧ tree = .ofToken token := by
  have hparse := @Derives.parse false [] [token] [] tree .expression 6 h trivial (by decide)
    ⟨noAnd_nil, noOr_nil⟩ (by simp [Rule.need])
  have hcomplete := (h.complete trivial).ne_null
  obtain ⟨type, value⟩ := token
  cases type with
  | monitorlink => exact ⟨rfl, (Parsed.done.inj hparse).1.symm⟩
  | unknown | logicalAnd | logicalOr | logicalComma | lp | rp =>
    first
      | contradiction
      | exact absurd (Parsed.done.inj hparse).1.symm hcomplete

/-- The parser stops behind a complete expression that a token follows which is no operator. -/
def StopsEarly (tokens : List Token) : Prop :=
  ∃ read next rest tree, tokens = read ++ next :: rest ∧ Derives .expression read tree ∧
    next.type ≠ .logicalAnd ∧ next.isOr = false

theorem parseTokens_of_derives (h : Derives .expression read tree) (hand : NoAnd rest)
    (hor : NoOr rest) (htokens : (read ++ rest).length ≠ 1) :
    parseTokens debug (read ++ rest) = .done tree rest := by
  have hne : read ++ rest ≠ [] := fun hnil ↦ h.ne_nil (List.append_eq_nil_iff.mp hnil).1
  rw [parseTokens, if_neg hne]
  exact h.parse trivial htokens ⟨hand, hor⟩ (Nat.le_refl _)

theorem derives_of_parseTokens (htokens : tokens.length ≠ 1)
    (h : parseTokens debug tokens = .done tree rest) (htree : tree.Complete) :
    NoAnd rest ∧ NoOr rest ∧ ∃ read, tokens = read ++ rest ∧ Derives .expression read tree := by
  rw [parseTokens] at h
  split at h
  · exact absurd htree (not_complete_of_null h)
  · obtain ⟨-, hstops, hread⟩ := @derives_of_parse debug tokens htokens (3 * tokens.length + 3)
      .expression tokens rest tree h htree
    exact ⟨hstops.1, hstops.2, hread⟩

theorem parseTokens_singleton (token : Token) :
    parseTokens debug [token] = .done (.ofToken token) [token] := rfl

theorem not_stopsEarly_singleton (token : Token) : ¬StopsEarly [token] := by
  rintro ⟨read, next, rest, tree, heq, hder, -⟩
  obtain ⟨first, read, rfl⟩ := List.exists_cons_of_ne_nil hder.ne_nil
  have hlen := congrArg List.length heq
  rw [List.length_append, List.length_cons, List.length_cons, List.length_cons, List.length_nil] at hlen
  omega

/-- The complete trees of the parser are the derivations of the grammar, unless it stops early. -/
theorem parse_derives_iff (debug : Bool) (tokens : List Token) :
    (∀ tree, ((∃ rest, parseTokens debug tokens = .done tree rest) ∧ tree.Complete) ↔
      Derives .expression tokens tree) ↔ ¬StopsEarly tokens := by
  by_cases htokens : tokens.length = 1
  · obtain ⟨token, rfl⟩ := List.length_eq_one_iff.mp htokens
    refine ⟨fun _ ↦ not_stopsEarly_singleton token, fun _ tree ↦ ⟨?_, ?_⟩⟩
    · rintro ⟨⟨rest, hparse⟩, htree⟩
      obtain ⟨rfl, -⟩ := Parsed.done.inj hparse
      have hlink : token.type = .monitorlink := htree.resolve_right fun hboth ↦ hboth.1
      have hder := Derives.expression (.andOperation (.monitorlink hlink) (.andEnd _)) (.orEnd _)
      exact hder
    · intro hder
      obtain ⟨-, rfl⟩ := hder.singleton
      exact ⟨⟨_, parseTokens_singleton token⟩, hder.complete trivial⟩
  · constructor
    · rintro hexact ⟨read, next, rest, tree, rfl, hder, hand, hor⟩
      have hpart := @parseTokens_of_derives debug _ _ _ hder (noAnd_cons hand) (noOr_cons hor) htokens
      -- the tree of the prefix would be one of all the tokens, and so leave none unread
      have hall := (hexact tree).mp ⟨⟨_, hpart⟩, hder.complete trivial⟩
      have hwhole := @parseTokens_of_derives debug _ [] _ hall noAnd_nil noOr_nil
        (by rwa [List.append_nil])
      rw [List.append_nil, hpart] at hwhole
      obtain ⟨-, hnil⟩ := Parsed.done.inj hwhole
      contradiction
    · intro hnot tree
      constructor
      · rintro ⟨⟨rest, hparse⟩, htree⟩
        obtain ⟨hand, hor, read, heq, hder⟩ := derives_of_parseTokens htokens hparse htree
        cases rest with
        | nil => rwa [heq, List.append_nil]
        | cons next rest =>
          exact absurd ⟨read, next, rest, tree, heq, hder, hand next rfl, hor next rfl⟩ hnot
      · intro hder
        have hwhole := @parseTokens_of_derives debug _ [] _ hder noAnd_nil noOr_nil
          (by rwa [List.append_nil])
        rw [List.append_nil] at hwhole
        exact ⟨⟨[], hwhole⟩, hder.complete trivial⟩

/-- A parenthesis too much: `1)` is read as `1`. -/
theorem parse_leftover : ∃ tree,
    ((∃ rest, parseTokens false (tokenize ['1', ')']) = .done tree rest) ∧ tree.Complete) ∧
    ¬Derives .expression (tokenize ['1', ')']) tree := by
  have hparse : parseTokens false (tokenize ['1', ')']) =
      .done (.ofToken ⟨.monitorlink, ['1']⟩) [⟨.rp, [')']⟩] := by decide
  refine ⟨_, ⟨⟨_, hparse⟩, .inl rfl⟩, fun hder ↦ ?_⟩
  have hwhole := @parseTokens_of_derives false _ [] _ hder noAnd_nil noOr_nil (by decide)
  rw [List.append_nil, hparse] at hwhole
  obtain ⟨-, hnil⟩ := Parsed.done.inj hwhole
  contradiction

end ZoneMinder.MonitorLink
