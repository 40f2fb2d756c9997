import Mathlib.Algebra.Order.Ring.Nat
import Mathlib.Tactic.Ring
import ZoneMinder.Lib.Words

namespace Lib

/-- The number that digits denote, the first one counting most. -/
def numeral (b : ℕ) (ds : List ℕ) : ℕ := ds.foldl (fun n d ↦ n * b + d) 0

/-- The bytes of a message read as one number, most significant first. -/
def ofBytes (bs : Bytes) : ℕ := bs.foldl (fun n byte ↦ n <<< 8 ||| byte.toNat) 0

/-- The `k` low bytes of a number, most significant first. -/
def toBytes : ℕ → ℕ → Bytes
  | 0, _ => []
  | k + 1, v => UInt8.ofNat (v >>> (8 * k)) :: toBytes k v

section Digits

variable {b d e : ℕ} {ds es : List ℕ}

theorem numeral_foldl (n : ℕ) :
    ds.foldl (fun n d ↦ n * b + d) n = n * b ^ ds.length + numeral b ds := by
  induction ds generalizing n with
  | nil => simp [numeral]
  | cons d ds ih =>
    rw [numeral, List.foldl_cons, List.foldl_cons, ih, ih (0 * b + d), List.length_cons, pow_succ]
    ring

theorem numeral_cons : numeral b (d :: ds) = d * b ^ ds.length + numeral b ds := by
  rw [numeral, List.foldl_cons, numeral_foldl, Nat.zero_mul, Nat.zero_add]

theorem numeral_append : numeral b (ds ++ es) = numeral b ds * b ^ es.length + numeral b es := by
  rw [numeral, List.foldl_append, numeral_foldl]
  rfl

theorem numeral_lt (h : ∀ d ∈ ds, d < b) : numeral b ds < b ^ ds.length := by
  induction ds with
  | nil => exact Nat.one_pos
  | cons d ds ih =>
    obtain ⟨hd, hds⟩ := List.forall_mem_cons.mp h
    have hrest := ih hds
    rw [numeral_cons, List.length_cons, pow_succ]
    calc d * b ^ ds.length + numeral b ds < d * b ^ ds.length + b ^ ds.length :=
          Nat.add_lt_add_left hrest _
      _ = b ^ ds.length * (d + 1) := by ring
      _ ≤ b ^ ds.length * b := Nat.mul_le_mul_left _ hd

/-- Of two numerals of one length the first digit that differs decides. -/
theorem numeral_cons_lt (hde : d < e) (hlength : ds.length = es.length) (hds : ∀ d ∈ ds, d < b) :
    numeral b (d :: ds) < numeral b (e :: es) := by
  have hrest := numeral_lt hds
  rw [numeral_cons, numeral_cons, ← hlength]
  calc d * b ^ ds.length + numeral b ds < d * b ^ ds.length + b ^ ds.length :=
        Nat.add_lt_add_left hrest _
    _ = (d + 1) * b ^ ds.length := by ring
    _ ≤ e * b ^ ds.length := Nat.mul_le_mul_right _ hde
    _ ≤ e * b ^ ds.length + numeral b es := Nat.le_add_right _ _

/-- Of two numerals without leading zeros the longer one is greater. -/
theorem numeral_lt_of_length (hlength : ds.length < es.length) (hds : ∀ d ∈ ds, d < b)
    (hes : es.head? ≠ some 0) (hb : 0 < b) : numeral b ds < numeral b es := by
  cases es with
  | nil => exact absurd hlength (Nat.not_lt_zero _)
  | cons e es =>
    have hpos : 0 < e := Nat.pos_of_ne_zero fun hzero ↦ hes (by rw [hzero]; rfl)
    rw [List.length_cons] at hlength
    calc numeral b ds < b ^ ds.length := numeral_lt hds
      _ ≤ b ^ es.length := Nat.pow_le_pow_right hb (by omega)
      _ ≤ e * b ^ es.length := Nat.le_mul_of_pos_left _ hpos
      _ ≤ numeral b (e :: es) := by
        rw [numeral_cons]
        exact Nat.le_add_right _ _

end Digits

section Words

variable {bs : Bytes}

theorem ofBytes_eq_numeral : ofBytes bs = numeral 256 (bs.map UInt8.toNat) := by
  have hstep (n : ℕ) (byte : UInt8) : n <<< 8 ||| byte.toNat = n * 256 + byte.toNat := by
    rw [← Nat.shiftLeft_add_eq_or_of_lt byte.toNat_lt, Nat.shiftLeft_eq]
  simp only [ofBytes, numeral, List.foldl_map, hstep]

@[simp] theorem toBytes_length (k v : ℕ) : (toBytes k v).length = k := by
  induction k with
  | zero => rfl
  | succ k ih => rw [toBytes, List.length_cons, ih]

theorem ofBytes_append (cs : Bytes) :
    ofBytes (bs ++ cs) = ofBytes bs * 256 ^ cs.length + ofBytes cs := by
  simp only [ofBytes_eq_numeral, List.map_append, numeral_append, List.length_map]

theorem ofBytes_toBytes (k v : ℕ) : ofBytes (toBytes k v) = v % 256 ^ k := by
  induction k with
  | zero => simp [toBytes, ofBytes, Nat.mod_one]
  | succ k ih =>
    have hfirst : (UInt8.ofNat (v >>> (8 * k))).toNat = v / 256 ^ k % 256 := by
      rw [UInt8.toNat_ofNat', Nat.shiftRight_eq_div_pow, pow_mul]
      norm_num
    rw [ofBytes_eq_numeral] at ih ⊢
    rw [toBytes, List.map_cons, numeral_cons, ih, hfirst, List.length_map, toBytes_length,
      Nat.mod_pow_succ]
    ring

end Words

end Lib
