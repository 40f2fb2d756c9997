import ZoneMinder.Php

namespace ZoneMinder.LogRedact

open Php

/-- What is taken from PHP as it is: the hash, and how a number with a fraction is printed. -/
structure Runtime where
  sha256 : Text → Text
  floatText : UInt64 → Text

inductive KeyKind
  | secret
  | token
  deriving DecidableEq

inductive Key
  | index (n : ℤ)
  | name (text : Text)
  deriving DecidableEq

def Key.text : Key → Text
  | .index n => decimal n
  | .name text => text

inductive Scalar
  | null
  | bool (value : Bool)
  | int (value : ℤ)
  | float (bits : UInt64)
  | string (text : Text)
  deriving DecidableEq

inductive Data
  | scalar (value : Scalar)
  | object (className : Text)
  | array (entries : List (Key × Data))

variable (rt : Runtime)

def Scalar.text : Scalar → Text
  | .null => []
  | .bool value => if value then ['1'] else []
  | .int value => decimal value
  | .float bits => rt.floatText bits
  | .string text => text

def logFingerprint (value : Scalar) : Text :=
  if value = .null ∨ value = .string [] then "fp:none".toList
  else "fp:".toList ++ (rt.sha256 (value.text rt)).take 8

def tokenNames : List Text :=
  ["auth", "token", "access_token", "refresh_token", "jwt", "zmsessid", "__csrf_magic"].map
    String.toList

/-- The patterns ignore case; `$` stands before a last newline too. -/
def logKeyKind (key : Text) : Option KeyKind :=
  let key := key.map Char.toLower
  let line := if key.getLast? = some '\n' then key.dropLast else key
  if "pass".toList <:+: key ∨ "pwd".toList <:+: key ∨ "secret".toList <:+: key then some .secret
  else if tokenNames.contains line = true ∨
      "authhash".toList <+: key ∧ ¬"authhashgeneratedat".toList <+: key then some .token
  else none

def schemeChar (c : Char) : Bool := c.isAlphanum || c ∈ ['+', '.', '-']

def authorityEnd (c : Char) : Bool := c ∈ ['/', '?', '#'] || space c

def userChar (c : Char) : Bool := !(c ∈ ['/', ':', '@'] || space c)

/-- What `[^/?#\s]*@` leaves, as far as it reaches, where `ahead` holds of it. -/
def afterAt (ahead : Text → Bool) : Text → Option Text
  | [] => none
  | c :: cs =>
    if authorityEnd c then none
    else
      match afterAt ahead cs with
      | some rest => some rest
      | none => if c = '@' ∧ ahead cs then some cs else none

/-- `scheme://user:pw@host` without what is before the host. -/
def removeUrlUserinfo (value : Text) : Text :=
  match value.takeWhile schemeChar, value.dropWhile schemeChar with
  | c :: scheme, ':' :: '/' :: '/' :: rest =>
    if c.isAlpha then c :: scheme ++ "://".toList ++ (afterAt (fun _ ↦ true) rest).getD rest
    else value
  | _, _ => value

def hostAhead (text : Text) : Bool := text.head?.any (fun c ↦ c.isAlphanum || c = '[')

/-- `user:pw@host` without what is before the host. -/
def removeHostUserinfo (value : Text) : Text :=
  match value.takeWhile userChar, value.dropWhile userChar with
  | _ :: _, ':' :: rest => (afterAt hostAhead rest).getD value
  | _, _ => value

def removeUserinfo (value : Text) : Text := removeHostUserinfo (removeUrlUserinfo value)

def separator (c : Char) : Bool := c ∈ ['?', '&', '#']

def nameChar (c : Char) : Bool := !(c = '=' || separator c)

def valueChar (c : Char) : Bool := !separator c

/-- `([^=&?#]+)=([^&?#]*)` at the beginning, and what comes after it. -/
def matchParameter (text : Text) : Option (Text × Text × Text) :=
  match text.takeWhile nameChar, text.dropWhile nameChar with
  | c :: name, '=' :: rest =>
    some (c :: name, rest.takeWhile valueChar, rest.dropWhile valueChar)
  | _, _ => none

/-- A value as it is written instead, by the name of its parameter. -/
def shownValue (name value : Text) : Text :=
  match logKeyKind (urldecode name) with
  | none => value
  | some .secret => "[redacted]".toList
  | some .token => logFingerprint rt (.string (urldecode value))

theorem length_of_matchParameter {text name value rest : Text}
    (h : matchParameter text = some (name, value, rest)) : rest.length < text.length := by
  rw [matchParameter] at h
  split at h
  · rename_i c name' rest' htake hdrop
    simp only [Option.some.injEq, Prod.mk.injEq] at h
    have hrest : rest.length ≤ rest'.length := by
      rw [← h.2.2]
      exact List.length_dropWhile_le _ _
    have hdrop' := congrArg List.length hdrop
    have hle := List.length_dropWhile_le nameChar text
    rw [List.length_cons] at hdrop'
    omega
  · cases h

/-- The matches that begin at `[?&]`, replaced from left to right. -/
def replaceParameters : Text → Text
  | [] => []
  | c :: cs =>
    if c = '?' ∨ c = '&' then
      match h : matchParameter cs with
      | some (name, value, rest) =>
        have : rest.length < cs.length := length_of_matchParameter h
        c :: name ++ '=' :: shownValue rt name value ++ replaceParameters rest
      | none => c :: replaceParameters cs
    else c :: replaceParameters cs
  termination_by text => text.length

/-- The first parameter may stand at the beginning, without a separator. -/
def redactQueryString (query : Text) : Text :=
  match matchParameter query with
  | some (name, value, rest) =>
    name ++ '=' :: shownValue rt name value ++ replaceParameters rt rest
  | none => replaceParameters rt query

def urlForLog (url : Text) : Text :=
  removeUserinfo (url.takeWhile (· ≠ '?')) ++
    if '?' ∈ url then redactQueryString rt (url.dropWhile (· ≠ '?')) else []

def keyKind (key : Option Key) : Option KeyKind := key.bind (fun key ↦ logKeyKind key.text)

def redactScalar (value : Scalar) (key : Option Key) : Scalar :=
  match keyKind key, value with
  | some .secret, _ => .string "[redacted]".toList
  | some .token, value => .string (logFingerprint rt value)
  | none, .string text =>
    let text := removeUserinfo text
    .string (if '=' ∈ text then redactQueryString rt text else text)
  | none, value => value

mutual

def redactForLog : Data → Option Key → Data
  | .array entries, _ => .array (redactEntries entries)
  | .object className, _ => .scalar (.string ('[' :: className ++ [']']))
  | .scalar value, key => .scalar (redactScalar rt value key)

/-- Every value of an array under its own key. -/
def redactEntries : List (Key × Data) → List (Key × Data)
  | [] => []
  | (key, value) :: entries => (key, redactForLog value (some key)) :: redactEntries entries

end

end ZoneMinder.LogRedact
