import Mathlib.Algebra.Ring.Nat
import Mathlib.Data.List.Basic

namespace Lib.Base64

/-- The digits of RFC 4648, section 4. -/
def alphabet : List Char :=
  "ABCDEFGHIJKLMNOPQRSTUVWXYZabcdefghijklmnopqrstuvwxyz0123456789+/".toList

def digit (n : ℕ) : Char := alphabet.getD n '='

def value (c : Char) : Option ℕ := alphabet.idxOf? c

/-- Three bytes as 24 bits, the first byte the highest. -/
def group (a b c : UInt8) : ℕ := a.toNat * 65536 + b.toNat * 256 + c.toNat

/-- A group of 24 bits as four digits. -/
def digits (n : ℕ) : List Char :=
  [digit (n / 262144), digit (n / 4096 % 64), digit (n / 64 % 64), digit (n % 64)]

/-- A last group of one or two bytes is filled with zero bits, and padded to four characters. -/
def encode : List UInt8 → List Char
  | [] => []
  | [a] => (digits (group a 0 0)).take 2 ++ ['=', '=']
  | [a, b] => (digits (group a b 0)).take 3 ++ ['=']
  | a :: b :: c :: rest => digits (group a b c) ++ encode rest

/-- The 24 bits of four digits. -/
def ungroup (a b c d : Char) : Option ℕ := do
  let a ← value a
  let b ← value b
  let c ← value c
  let d ← value d
  pure (a * 262144 + b * 4096 + c * 64 + d)

def byte (n k : ℕ) : UInt8 := UInt8.ofNat (n / 256 ^ k % 256)

def decode : List Char → Option (List UInt8)
  | [] => some []
  | a :: b :: c :: d :: rest =>
    if d = '=' ∧ rest = [] then
      if c = '=' then (ungroup a b 'A' 'A').map fun n ↦ [byte n 2]
      else (ungroup a b c 'A').map fun n ↦ [byte n 2, byte n 1]
    else (ungroup a b c d).bind fun n ↦
      (decode rest).map fun bytes ↦ byte n 2 :: byte n 1 :: byte n 0 :: bytes
  | _ => none

theorem value_digit {n : ℕ} (h : n < 64) : value (digit n) = some n := by
  have hall : ∀ k : Fin 64, value (digit k) = some k.val := by decide +kernel
  exact hall ⟨n, h⟩

theorem digit_ne_pad {n : ℕ} (h : n < 64) : digit n ≠ '=' := by
  have hall : ∀ k : Fin 64, digit k ≠ '=' := by decide +kernel
  exact hall ⟨n, h⟩

theorem group_lt (a b c : UInt8) : group a b c < 16777216 := by
  have ha := a.toNat_lt
  have hb := b.toNat_lt
  have hc := c.toNat_lt
  unfold group
  omega

theorem ungroup_digits {n : ℕ} (h : n < 16777216) :
    ungroup (digit (n / 262144)) (digit (n / 4096 % 64)) (digit (n / 64 % 64)) (digit (n % 64)) =
      some n := by
  have hsum : n / 262144 * 262144 + n / 4096 % 64 * 4096 + n / 64 % 64 * 64 + n % 64 = n := by
    omega
  have h64 : ∀ m, m % 64 < 64 := fun m ↦ Nat.mod_lt m (by decide)
  rw [ungroup, value_digit (by omega), value_digit (h64 _), value_digit (h64 _),
    value_digit (h64 _)]
  exact congrArg some hsum

theorem byte_group_two (a b c : UInt8) : byte (group a b c) 2 = a := by
  have hb := b.toNat_lt
  have hc := c.toNat_lt
  have ha := a.toNat_lt
  have hdiv : group a b c / 256 ^ 2 % 256 = a.toNat := by
    unfold group
    omega
  rw [byte, hdiv, UInt8.ofNat_toNat]

theorem byte_group_one (a b c : UInt8) : byte (group a b c) 1 = b := by
  have hb := b.toNat_lt
  have hc := c.toNat_lt
  have hdiv : group a b c / 256 ^ 1 % 256 = b.toNat := by
    unfold group
    omega
  rw [byte, hdiv, UInt8.ofNat_toNat]

theorem byte_group_zero (a b c : UInt8) : byte (group a b c) 0 = c := by
  have hc := c.toNat_lt
  have hdiv : group a b c / 256 ^ 0 % 256 = c.toNat := by
    unfold group
    omega
  rw [byte, hdiv, UInt8.ofNat_toNat]

theorem decode_encode (bytes : List UInt8) : decode (encode bytes) = some bytes := by
  have hzero : digit 0 = 'A' := by decide
  induction bytes using encode.induct with
  | case1 => rfl
  | case2 a =>
    have hgroup := ungroup_digits (group_lt a 0 0)
    have hthird : group a 0 0 / 64 % 64 = 0 := by simp [group]; omega
    have hlast : group a 0 0 % 64 = 0 := by simp [group]; omega
    rw [hthird, hlast, hzero] at hgroup
    simp [encode, digits, decode, hgroup, byte_group_two]
  | case3 a b =>
    have hgroup := ungroup_digits (group_lt a b 0)
    have hlast : group a b 0 % 64 = 0 := by simp [group]; omega
    have hpad := digit_ne_pad (Nat.mod_lt (group a b 0 / 64) (by decide : 0 < 64))
    rw [hlast, hzero] at hgroup
    simp [encode, digits, decode, hgroup, hpad, byte_group_two, byte_group_one]
  | case4 a b c rest ih =>
    have hpad := digit_ne_pad (Nat.mod_lt (group a b c) (by decide : 0 < 64))
    simp [encode, digits, decode, hpad, ungroup_digits (group_lt a b c), ih, byte_group_two,
      byte_group_one, byte_group_zero]

theorem encode_injective {bytes bytes' : List UInt8} (h : encode bytes = encode bytes') :
    bytes = bytes' := by
  have hdecode := decode_encode bytes
  rw [h, decode_encode] at hdecode
  exact (Option.some.inj hdecode).symm

theorem length_encode (bytes : List UInt8) : (encode bytes).length = 4 * ((bytes.length + 2) / 3) := by
  induction bytes using encode.induct with
  | case1 => rfl
  | case2 a => simp [encode, digits]
  | case3 a b => simp [encode, digits]
  | case4 a b c rest ih =>
    rw [encode, List.length_append, ih]
    simp only [digits, List.length_cons, List.length_nil]
    omega

end Lib.Base64
