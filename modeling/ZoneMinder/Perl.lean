import Mathlib.Data.List.Basic

namespace ZoneMinder.Perl

/-- A scalar as it comes out of the JSON decoder; a number is known by the text it prints as. -/
inductive Json
  | null
  | bool (b : Bool)
  | number (text : String)
  | string (text : String)
  | array (elements : List Json)
  | object (fields : List (String × Json))

/-- What of Perl depends on Unicode, on addresses and on floating point. -/
structure Runtime where
  wideDigit : Char → Bool
  wideSpace : Char → Bool
  address : Json → String
  repeatCount : Json → ℕ

variable (perl : Runtime)

/-- `\d` -/
def digit (c : Char) : Bool := if c.toNat < 128 then c.isDigit else perl.wideDigit c

/-- `\s` -/
def space (c : Char) : Bool :=
  if c.toNat < 128 then c ∈ [' ', '\t', '\n', '\x0b', '\x0c', '\r'] else perl.wideSpace c

namespace Json

/-- A scalar as a string; a reference shows its kind and its address. -/
def text : Json → String
  | null => ""
  | bool b => if b then "1" else "0"
  | number text => text
  | string text => text
  | array elements => "ARRAY(0x" ++ perl.address (.array elements) ++ ")"
  | object fields => "HASH(0x" ++ perl.address (.object fields) ++ ")"

def truthy : Json → Bool
  | null => false
  | bool b => b
  | number text => text ≠ "" && text ≠ "0"
  | string text => text ≠ "" && text ≠ "0"
  | array _ => true
  | object _ => true

/-- `$hash->{key}` -/
def get (fields : List (String × Json)) (key : String) : Json := (fields.lookup key).getD null

end Json

def isTrue (text : String) : Bool := text ≠ "" && text ≠ "0"

/-- What `$` leaves of a text: it matches before a newline at the end as well. -/
def chomp (text : List Char) : List Char :=
  if text.getLast? = some '\n' then text.dropLast else text

/-- `uc($text) eq 'NULL'` -/
def isNull (text : String) : Bool := text.toList.map Char.toUpper = ['N', 'U', 'L', 'L']

/-- `/^-?\d+(?:\.\d+)?$/` -/
def plainNumber (text : List Char) : Bool :=
  let unsigned := if (chomp text).head? = some '-' then (chomp text).tail else chomp text
  let rest := unsigned.dropWhile (digit perl)
  !(unsigned.takeWhile (digit perl)).isEmpty &&
    (rest.isEmpty ||
      (rest.head? = some '.' && !rest.tail.isEmpty && rest.tail.all (digit perl)))

end ZoneMinder.Perl
