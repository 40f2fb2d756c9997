import Mathlib.Data.Nat.Bitwise
import Mathlib.Tactic.Ring

namespace Lib

abbrev Bytes := List UInt8

/-- What holds of 256 numbers as bytes holds of every byte. -/
theorem byte_induction {motive : UInt8 → Prop} (h : ∀ n : Fin 256, motive (UInt8.ofNat n))
    (b : UInt8) : motive b := by
  have hb := h ⟨b.toNat, b.toNat_lt⟩
  rwa [UInt8.ofNat_toNat] at hb

/-- The byte at an index; zero past the end, where no caller reads. -/
def byteAt (bs : Bytes) (i : ℕ) : UInt8 := bs.getD i 0

/-- Byte `k` of a word, counted from the least significant one. -/
def byteOf (v : UInt32) (k : UInt32) : UInt8 := (v >>> (8 * k)).toUInt8

/-- The word with the given bytes, least significant first. -/
def wordOf (a b c d : UInt8) : UInt32 :=
  a.toUInt32 ||| b.toUInt32 <<< 8 ||| c.toUInt32 <<< 16 ||| d.toUInt32 <<< 24

theorem or_shiftLeft (k a b : ℕ) (ha : a < 2 ^ k) : a ||| b <<< k = a + 2 ^ k * b := by
  rw [Nat.or_comm, ← Nat.shiftLeft_add_eq_or_of_lt ha, Nat.shiftLeft_eq]
  ring

theorem wordOf_toNat (a b c d : UInt8) :
    (wordOf a b c d).toNat =
      a.toNat + 256 * b.toNat + 65536 * c.toNat + 16777216 * d.toNat := by
  have ha := a.toNat_lt
  have hb := b.toNat_lt
  have hc := c.toNat_lt
  have hd := d.toNat_lt
  have h8 : (b.toUInt32 <<< 8).toNat = b.toNat <<< 8 := by
    simp [UInt32.toNat_shiftLeft, Nat.shiftLeft_eq]
    omega
  have h16 : (c.toUInt32 <<< 16).toNat = c.toNat <<< 16 := by
    simp [UInt32.toNat_shiftLeft, Nat.shiftLeft_eq]
    omega
  have h24 : (d.toUInt32 <<< 24).toNat = d.toNat <<< 24 := by
    simp [UInt32.toNat_shiftLeft, Nat.shiftLeft_eq]
    omega
  simp only [wordOf, UInt32.toNat_or, h8, h16, h24, UInt8.toNat_toUInt32]
  rw [or_shiftLeft 8 _ _ (by omega), or_shiftLeft 16 _ _ (by omega),
    or_shiftLeft 24 _ _ (by omega)]
  norm_num

@[simp] theorem wordOf_byteOf (v : UInt32) :
    wordOf (byteOf v 0) (byteOf v 1) (byteOf v 2) (byteOf v 3) = v := by
  apply UInt32.toNat_inj.mp
  have hv := v.toNat_lt
  rw [wordOf_toNat]
  simp only [byteOf, UInt32.reduceMul, UInt32.toNat_toUInt8, UInt32.toNat_shiftRight,
    UInt32.reduceToNat, Nat.reduceMod, Nat.shiftRight_eq_div_pow, Nat.reducePow]
  omega

/-- A double word from its low and high halves. -/
def dwordOf (lo hi : UInt32) : UInt64 := lo.toUInt64 ||| hi.toUInt64 <<< 32

theorem dwordOf_toNat (lo hi : UInt32) :
    (dwordOf lo hi).toNat = lo.toNat + 2 ^ 32 * hi.toNat := by
  have hlo := lo.toNat_lt
  have hhi := hi.toNat_lt
  have hshift : (hi.toUInt64 <<< 32).toNat = hi.toNat <<< 32 := by
    simp [UInt64.toNat_shiftLeft, Nat.shiftLeft_eq]
    omega
  rw [dwordOf, UInt64.toNat_or, hshift, UInt32.toNat_toUInt64, or_shiftLeft 32 _ _ hlo]

@[simp] theorem dwordOf_halves (v : UInt64) : dwordOf v.toUInt32 (v >>> 32).toUInt32 = v := by
  apply UInt64.toNat_inj.mp
  have hv := v.toNat_lt
  rw [dwordOf_toNat]
  simp only [UInt64.toNat_toUInt32, UInt64.toNat_shiftRight,
    UInt64.reduceToNat, Nat.reduceMod, Nat.shiftRight_eq_div_pow, Nat.reducePow]
  omega

/-- How many zeros a number that is not zero ends in. -/
def ctz (n : ℕ) : ℕ := if n = 0 ∨ n % 2 = 1 then 0 else ctz (n / 2) + 1

theorem testBit_ctz {n : ℕ} (hn : n ≠ 0) : n.testBit (ctz n) := by
  induction n using ctz.induct with
  | case1 n h =>
    rw [ctz, if_pos h, Nat.testBit_zero]
    simpa using h.resolve_left hn
  | case2 n h ih =>
    obtain ⟨-, hodd⟩ := not_or.mp h
    rw [ctz, if_neg h, Nat.testBit_succ]
    exact ih (by omega)

/-- All bits but the lowest one that is set. -/
theorem testBit_clear {n : ℕ} (hn : n ≠ 0) (b : ℕ) :
    (n &&& (n - 1)).testBit b ↔ n.testBit b ∧ b ≠ ctz n := by
  induction n using ctz.induct generalizing b with
  | case1 n h =>
    have hodd := h.resolve_left hn
    have hhalf : (n - 1) / 2 = n / 2 := by omega
    rw [ctz, if_pos h]
    cases b with
    | zero =>
      have heven : (n - 1) % 2 = 0 := by omega
      simp [Nat.testBit_zero, heven]
    | succ b =>
      rw [Nat.testBit_and, Nat.testBit_succ, Nat.testBit_succ, hhalf]
      simp
  | case2 n h ih =>
    obtain ⟨-, hodd⟩ := not_or.mp h
    have hhalf : (n - 1) / 2 = n / 2 - 1 := by omega
    rw [ctz, if_neg h]
    cases b with
    | zero => simp [Nat.testBit_zero, hodd]
    | succ b =>
      have hrest := ih (by omega) b
      rw [Nat.testBit_and] at hrest
      rw [Nat.testBit_and, Nat.testBit_succ, Nat.testBit_succ, hhalf, hrest]
      simp

end Lib
