import ZoneMinder.Lib.Fields
import Mathlib.Algebra.Order.Ring.Int
import Mathlib.Data.List.Infix

namespace ZoneMinder.Php

open Lib

abbrev Text := List Char

/-- The characters that `trim` takes off. -/
def trimmed (c : Char) : Bool := c ∈ [' ', '\t', '\n', '\r', '\x00', '\x0b']

def trim (text : Text) : Text := Lib.trim trimmed text

/-- The class `\s` of a regular expression. -/
def space (c : Char) : Bool := c ∈ [' ', '\t', '\n', '\x0b', '\x0c', '\r']

/-- The text of an integer. -/
def decimal (n : ℤ) : Text := (if n < 0 then ['-'] else []) ++ Nat.toDigits 10 n.natAbs

theorem mem_decimal {n : ℤ} {c : Char} (h : c ∈ decimal n) : c = '-' ∨ c.isDigit = true := by
  rcases List.mem_append.mp h with h | h
  · split_ifs at h
    · exact .inl (List.mem_singleton.mp h)
    · cases h
  · exact .inr (Nat.isDigit_of_mem_toDigits (by decide) (by decide) h)

/-- `str_replace` of two characters by nothing, from left to right. -/
def removePair (a b : Char) : Text → Text
  | [] => []
  | [c] => [c]
  | c :: d :: cs => if c = a ∧ d = b then removePair a b cs else c :: removePair a b (d :: cs)

/-- `/^\d+$/`, where `$` stands before a last newline too. -/
def allDigits (text : Text) : Bool :=
  let text := if text.getLast? = some '\n' then text.dropLast else text
  text ≠ [] && text.all Char.isDigit

/-- `intval` of a text that is digits. -/
def intval (text : Text) : ℤ :=
  min (((text.takeWhile Char.isDigit).foldl (fun n c ↦ n * 10 + (c.toNat - 48)) 0 : ℕ) : ℤ)
    (2 ^ 63 - 1)

def hexDigit (c : Char) : Option ℕ :=
  if c.isDigit then some (c.toNat - 48)
  else if 'a' ≤ c ∧ c ≤ 'f' then some (c.toNat - 87)
  else if 'A' ≤ c ∧ c ≤ 'F' then some (c.toNat - 55)
  else none

/-- `urldecode`; a percent sign that no two hexadecimal digits follow stays. -/
def urldecode : Text → Text
  | '%' :: c :: d :: cs =>
    match hexDigit c, hexDigit d with
    | some m, some n => Char.ofNat (16 * m + n) :: urldecode cs
    | _, _ => '%' :: urldecode (c :: d :: cs)
  | c :: cs => (if c = '+' then ' ' else c) :: urldecode cs
  | [] => []

/-- `empty` of a string. -/
def isEmpty (text : Text) : Bool := text = [] || text = ['0']

end ZoneMinder.Php
