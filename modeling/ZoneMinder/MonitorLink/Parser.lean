import Mathlib.Data.List.Basic
import Mathlib.Tactic.Common

namespace ZoneMinder.MonitorLink

inductive TokenType
  | unknown | monitorlink | logicalAnd | logicalOr | logicalComma | lp | rp
  deriving DecidableEq

structure Token where
  type : TokenType
  value : List Char := []
  deriving DecidableEq

def toTokenType (value : List Char) : TokenType :=
  if value = ['&'] then .logicalAnd
  else if value = ['|'] then .logicalOr
  else if value = [','] then .logicalComma
  else if value = ['('] then .lp
  else if value = [')'] then .rp
  else .monitorlink

def Token.ofValue (value : List Char) : Token := ⟨toTokenType value, value⟩

def Token.isOr (token : Token) : Bool := token.type = .logicalOr || token.type = .logicalComma

def delimiters : List Char := ['|', '&', '(', ')', ',']

/-- The token of the text before a delimiter or the end, if there is any. -/
def pendingToken (pending : List Char) : List Token :=
  if pending = [] then [] else [.ofValue pending]

/-- The loop of parse over the rest of the expression, with the text since the last delimiter. -/
def tokenizeFrom (pending : List Char) : List Char → List Token
  | [] => pendingToken pending
  | c :: rest =>
    if c ∈ delimiters then pendingToken pending ++ .ofValue [c] :: tokenizeFrom [] rest
    else tokenizeFrom (pending ++ [c]) rest

def tokenize (expression : List Char) : List Token := tokenizeFrom [] expression

/-- A unique_ptr to a Node. -/
inductive Tree
  | null
  | node (token : Token) (left right : Tree)
  deriving DecidableEq

def Tree.ofToken (token : Token) : Tree := .node token .null .null

/-- How a parsing function ends: with a tree and the tokens from `current` on, or by
dereferencing a null pointer. `timeout` is not an end but the model out of fuel. -/
inductive Parsed
  | timeout
  | crash
  | done (tree : Tree) (unread : List Token)
  deriving DecidableEq

def Parsed.bind (parsed : Parsed) (f : Tree → List Token → Parsed) : Parsed :=
  match parsed with
  | .timeout => .timeout
  | .crash => .crash
  | .done tree unread => f tree unread

section

variable (debug : Bool) (tokens : List Token)

mutual

/-- The Debug call of the early return evaluates `left->token` when `debug` is on. -/
def parseExpression : ℕ → List Token → Parsed
  | 0, _ => .timeout
  | fuel + 1, unread =>
    match tokens with
    | [token] => .done (.ofToken token) unread
    | _ =>
      (parseAndOperation fuel unread).bind fun left unread ↦
        match unread with
        | [] => orOperations fuel left unread
        | token :: _ =>
          if token.isOr then orOperations fuel left unread
          else if debug ∧ left = .null then .crash
          else .done left unread

/-- The loop of parse_expression. -/
def orOperations : ℕ → Tree → List Token → Parsed
  | 0, _, _ => .timeout
  | _ + 1, left, [] => .done left []
  | fuel + 1, left, token :: rest =>
    if token.isOr then
      (parseAndOperation fuel rest).bind fun right unread ↦
        if right = .null then .done .null unread
        else orOperations fuel (.node ⟨.logicalOr, []⟩ left right) unread
    else .done left (token :: rest)

def parseAndOperation : ℕ → List Token → Parsed
  | 0, _ => .timeout
  | fuel + 1, unread =>
    (parseParentheses fuel unread).bind fun left unread ↦
      if left = .null then .done .null unread else andOperations fuel left unread

/-- The loop of parse_and_operation. -/
def andOperations : ℕ → Tree → List Token → Parsed
  | 0, _, _ => .timeout
  | _ + 1, left, [] => .done left []
  | fuel + 1, left, token :: rest =>
    if token.type = .logicalAnd then
      (parseParentheses fuel rest).bind fun right unread ↦
        if right = .null then .done .null unread
        else andOperations fuel (.node ⟨.logicalAnd, []⟩ left right) unread
    else .done left (token :: rest)

def parseParentheses : ℕ → List Token → Parsed
  | 0, _ => .timeout
  | _ + 1, [] => .done .null []
  | fuel + 1, token :: rest =>
    if token.type = .lp then
      (parseExpression fuel rest).bind fun expression unread ↦
        match unread with
        | [] => .done .null []
        | next :: unread => if next.type = .rp then .done expression unread else .done .null unread
    else if token.type = .monitorlink then .done (.ofToken token) rest
    else .done .null (token :: rest)

end

/-- The tree parse leaves behind; without tokens there is none. -/
def parseTokens : Parsed :=
  if tokens = [] then .done .null []
  else parseExpression debug tokens (3 * tokens.length + 3) tokens

end

def parse (debug : Bool) (expression : List Char) : Parsed := parseTokens debug (tokenize expression)

example : parse false ['1', '&', '2', '|', '3'] = .done
    (.node ⟨.logicalOr, []⟩ (.node ⟨.logicalAnd, []⟩ (.ofToken ⟨.monitorlink, ['1']⟩)
      (.ofToken ⟨.monitorlink, ['2']⟩)) (.ofToken ⟨.monitorlink, ['3']⟩)) [] := by decide

example : parse true ['&', '1'] = .crash := by decide

end ZoneMinder.MonitorLink
