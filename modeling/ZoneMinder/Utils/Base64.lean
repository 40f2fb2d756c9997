import ZoneMinder.Lib.Base64
import ZoneMinder.Lib.Words

namespace ZoneMinder.Utils

open Lib

/-- A byte of a string, as a `char` that an operation promotes to `int`. -/
def promote (signedChar : Bool) (b : UInt8) : Int32 :=
  if signedChar then b.toInt8.toInt32 else b.toUInt32.toInt32

/-- What an assignment to an `unsigned char` keeps. -/
def unsignedChar (x : Int32) : UInt8 := x.toUInt32.toUInt8

def base64Table : List Char :=
  (List.range 26).map (fun i ↦ Char.ofNat ('A'.toNat + i)) ++
    (List.range 26).map (fun i ↦ Char.ofNat ('a'.toNat + i)) ++
      (List.range 10).map (fun i ↦ Char.ofNat ('0'.toNat + i)) ++ ['+', '/']

/-- What a pointer into a C string reads. -/
def deref (inPtr : Bytes) : UInt8 := inPtr.headD 0

/-- One round for each group of three. The result is `none` where the table is read past its
end. -/
def base64EncodeFrom (signedChar : Bool) (inPtr : Bytes) : Option (List Char) :=
  if _h : deref inPtr = 0 then some []
  else
    let char := promote signedChar
    let selection := unsignedChar (char (deref inPtr) >>> 2)
    let remainder := unsignedChar ((char (deref inPtr) &&& 3) <<< 4)
    let inPtr' := inPtr.tail
    base64Table[selection.toNat]?.bind fun first ↦
    if deref inPtr' = 0 then
      base64Table[remainder.toNat]?.map fun second ↦ [first, second, '=', '=']
    else
      let selection := unsignedChar (remainder.toUInt32.toInt32 ||| char (deref inPtr') >>> 4)
      let remainder := unsignedChar ((char (deref inPtr') &&& 15) <<< 2)
      let inPtr'' := inPtr'.tail
      base64Table[selection.toNat]?.bind fun second ↦
      if deref inPtr'' = 0 then
        base64Table[remainder.toNat]?.map fun third ↦ [first, second, third, '=']
      else
        let selection := unsignedChar (remainder.toUInt32.toInt32 ||| char (deref inPtr'') >>> 6)
        base64Table[selection.toNat]?.bind fun third ↦
        base64Table[(unsignedChar (char (deref inPtr'') &&& 63)).toNat]?.bind fun fourth ↦
        (base64EncodeFrom signedChar inPtr''.tail).map fun rest ↦
          [first, second, third, fourth] ++ rest
termination_by inPtr.length
decreasing_by
  cases inPtr with
  | nil => exact absurd rfl _h
  | cons a rest =>
    simp only [List.length_cons, List.length_tail, List.tail_cons]
    omega

def base64Encode (signedChar : Bool) (str : Bytes) : Option (List Char) :=
  base64EncodeFrom signedChar str

theorem base64Table_get {n : ℕ} (h : n < 64) : base64Table[n]? = some (Base64.digit n) := by
  have hall : ∀ k : Fin 64, base64Table[k.val]? = some (Base64.digit k) := by decide +kernel
  exact hall ⟨n, h⟩

theorem base64Table_none {n : ℕ} (h : 64 ≤ n) : base64Table[n]? = none := by
  have hlen : base64Table.length = 64 := by decide +kernel
  rw [List.getElem?_eq_none_iff, hlen]
  exact h

section Byte

variable {signedChar : Bool} {b : UInt8}

/-- What the masks and the shifts of the loop keep of each byte, read off all 256 of them. -/
theorem masks_toNat (signedChar : Bool) (b : UInt8) :
    (unsignedChar ((promote signedChar b &&& 3) <<< 4)).toNat = b.toNat % 4 * 16 ∧
      (unsignedChar ((promote signedChar b &&& 15) <<< 2)).toNat = b.toNat % 16 * 4 ∧
      (unsignedChar (promote signedChar b &&& 63)).toNat = b.toNat % 64 ∧
      ∀ k ∈ [2, 4, 6], if signedChar ∧ 128 ≤ b.toNat
        then 64 ≤ (unsignedChar (promote signedChar b >>> Int32.ofNat k)).toNat
        else (unsignedChar (promote signedChar b >>> Int32.ofNat k)).toNat =
          b.toNat / 2 ^ k := by
  induction b using byte_induction with
  | h n =>
    revert n signedChar
    decide +kernel

theorem remainder_first (signedChar : Bool) (b : UInt8) :
    (unsignedChar ((promote signedChar b &&& 3) <<< 4)).toNat = b.toNat % 4 * 16 :=
  (masks_toNat signedChar b).1

theorem remainder_second (signedChar : Bool) (b : UInt8) :
    (unsignedChar ((promote signedChar b &&& 15) <<< 2)).toNat = b.toNat % 16 * 4 :=
  (masks_toNat signedChar b).2.1

theorem low_toNat (signedChar : Bool) (b : UInt8) :
    (unsignedChar (promote signedChar b &&& 63)).toNat = b.toNat % 64 :=
  (masks_toNat signedChar b).2.2.1

theorem shift_toNat {k : ℕ} (hk : k ∈ [2, 4, 6]) (h : signedChar → b.toNat < 128) :
    (unsignedChar (promote signedChar b >>> Int32.ofNat k)).toNat = b.toNat / 2 ^ k := by
  have hplain : ¬(signedChar ∧ 128 ≤ b.toNat) := fun hneg ↦ absurd (h hneg.1) (by omega)
  have htable := (masks_toNat signedChar b).2.2.2 k hk
  rwa [if_neg hplain] at htable

/-- A negative `char` keeps its sign in the shifts. -/
theorem negative_le (h : 128 ≤ b.toNat) :
    64 ≤ (unsignedChar (promote true b >>> 2)).toNat ∧
      64 ≤ (unsignedChar (promote true b >>> 4)).toNat ∧
        64 ≤ (unsignedChar (promote true b >>> 6)).toNat := by
  have hshift : ∀ k ∈ [2, 4, 6],
      64 ≤ (unsignedChar (promote true b >>> Int32.ofNat k)).toNat := by
    intro k hk
    have htable := (masks_toNat true b).2.2.2 k hk
    rwa [if_pos ⟨rfl, h⟩] at htable
  exact ⟨hshift 2 (by simp), hshift 4 (by simp), hshift 6 (by simp)⟩

theorem selection_toNat (h : signedChar → b.toNat < 128) :
    (unsignedChar (promote signedChar b >>> 2)).toNat = b.toNat / 4 :=
  @shift_toNat signedChar b 2 (by simp) h

theorem high_four (h : signedChar → b.toNat < 128) :
    (unsignedChar (promote signedChar b >>> 4)).toNat = b.toNat / 16 :=
  @shift_toNat signedChar b 4 (by simp) h

theorem high_two (h : signedChar → b.toNat < 128) :
    (unsignedChar (promote signedChar b >>> 6)).toNat = b.toNat / 64 :=
  @shift_toNat signedChar b 6 (by simp) h

theorem unsignedChar_or (r : UInt8) (x : Int32) :
    unsignedChar (r.toUInt32.toInt32 ||| x) = r ||| unsignedChar x := by
  simp [unsignedChar]

theorem or_toNat {r s : UInt8} {k m : ℕ} (hr : r.toNat = m * 2 ^ k) (hs : s.toNat < 2 ^ k) :
    (r ||| s).toNat = m * 2 ^ k + s.toNat := by
  rw [UInt8.toNat_or, hr, ← Nat.shiftLeft_eq, Nat.shiftLeft_add_eq_or_of_lt hs]

theorem second_toNat (a : UInt8) (h : signedChar → b.toNat < 128) :
    (unsignedChar ((unsignedChar ((promote signedChar a &&& 3) <<< 4)).toUInt32.toInt32 |||
      promote signedChar b >>> 4)).toNat = a.toNat % 4 * 16 + b.toNat / 16 := by
  have hb := b.toNat_lt
  have hlow := high_four h
  have hor := @or_toNat _ (unsignedChar (promote signedChar b >>> 4)) 4 (a.toNat % 4)
    (remainder_first signedChar a) (by omega)
  rw [unsignedChar_or]
  omega

theorem third_toNat (a : UInt8) (h : signedChar → b.toNat < 128) :
    (unsignedChar ((unsignedChar ((promote signedChar a &&& 15) <<< 2)).toUInt32.toInt32 |||
      promote signedChar b >>> 6)).toNat = a.toNat % 16 * 4 + b.toNat / 64 := by
  have hb := b.toNat_lt
  have hlow := high_two h
  have hor := @or_toNat _ (unsignedChar (promote signedChar b >>> 6)) 2 (a.toNat % 16)
    (remainder_second signedChar a) (by omega)
  rw [unsignedChar_or]
  omega

theorem le_or_toNat (r : UInt8) {x : Int32} (h : 64 ≤ (unsignedChar x).toNat) :
    64 ≤ (unsignedChar (r.toUInt32.toInt32 ||| x)).toNat := by
  rw [unsignedChar_or, UInt8.toNat_or]
  exact Nat.le_trans h Nat.right_le_or

end Byte

variable {signedChar : Bool} {a b c : UInt8} {rest str : Bytes}

/-- A byte that the loop and the shifts take as it is. -/
def Plain (signedChar : Bool) (b : UInt8) : Prop := b ≠ 0 ∧ (signedChar → b.toNat < 128)

instance (signedChar : Bool) (b : UInt8) : Decidable (Plain signedChar b) :=
  inferInstanceAs (Decidable (_ ∧ _))

theorem digits_group (a b c : UInt8) :
    Base64.digits (Base64.group a b c) =
      [Base64.digit (a.toNat / 4), Base64.digit (a.toNat % 4 * 16 + b.toNat / 16),
        Base64.digit (b.toNat % 16 * 4 + c.toNat / 64), Base64.digit (c.toNat % 64)] := by
  have hb := b.toNat_lt
  have hc := c.toNat_lt
  have hfirst : Base64.group a b c / 262144 = a.toNat / 4 := by unfold Base64.group; omega
  have hsecond : Base64.group a b c / 4096 % 64 = a.toNat % 4 * 16 + b.toNat / 16 := by
    unfold Base64.group
    omega
  have hthird : Base64.group a b c / 64 % 64 = b.toNat % 16 * 4 + c.toNat / 64 := by
    unfold Base64.group
    omega
  have hfourth : Base64.group a b c % 64 = c.toNat % 64 := by unfold Base64.group; omega
  rw [Base64.digits, hfirst, hsecond, hthird, hfourth]

theorem get_selection (h : Plain signedChar b) :
    base64Table[(unsignedChar (promote signedChar b >>> 2)).toNat]? =
      some (Base64.digit (b.toNat / 4)) := by
  have hb := b.toNat_lt
  rw [selection_toNat h.2, base64Table_get (by omega)]

theorem get_remainder (signedChar : Bool) (b : UInt8) :
    base64Table[(unsignedChar ((promote signedChar b &&& 3) <<< 4)).toNat]? =
      some (Base64.digit (b.toNat % 4 * 16)) := by
  rw [remainder_first, base64Table_get (by omega)]

theorem get_second (a : UInt8) (h : Plain signedChar b) :
    base64Table[(unsignedChar ((unsignedChar ((promote signedChar a &&& 3) <<< 4)).toUInt32.toInt32
      ||| promote signedChar b >>> 4)).toNat]? =
      some (Base64.digit (a.toNat % 4 * 16 + b.toNat / 16)) := by
  have hb := b.toNat_lt
  rw [second_toNat a h.2, base64Table_get (by omega)]

theorem get_remainder' (signedChar : Bool) (b : UInt8) :
    base64Table[(unsignedChar ((promote signedChar b &&& 15) <<< 2)).toNat]? =
      some (Base64.digit (b.toNat % 16 * 4)) := by
  rw [remainder_second, base64Table_get (by omega)]

theorem get_third (a : UInt8) (h : Plain signedChar b) :
    base64Table[(unsignedChar ((unsignedChar ((promote signedChar a &&& 15) <<< 2)).toUInt32.toInt32
      ||| promote signedChar b >>> 6)).toNat]? =
      some (Base64.digit (a.toNat % 16 * 4 + b.toNat / 64)) := by
  have hb := b.toNat_lt
  rw [third_toNat a h.2, base64Table_get (by omega)]

theorem get_low (signedChar : Bool) (b : UInt8) :
    base64Table[(unsignedChar (promote signedChar b &&& 63)).toNat]? =
      some (Base64.digit (b.toNat % 64)) := by
  rw [low_toNat, base64Table_get (by omega)]

theorem base64EncodeFrom_of_plain (h : ∀ b ∈ str, Plain signedChar b) :
    base64EncodeFrom signedChar str = some (Base64.encode str) := by
  induction str using Base64.encode.induct with
  | case1 =>
    rw [base64EncodeFrom]
    rfl
  | case2 a =>
    have ha := h a (by simp)
    rw [base64EncodeFrom]
    simp [deref, ha.1, get_selection ha, get_remainder, Base64.encode, digits_group]
  | case3 a b =>
    have ha := h a (by simp)
    have hb := h b (by simp)
    rw [base64EncodeFrom]
    simp [deref, ha.1, hb.1, get_selection ha, get_second a hb, get_remainder', Base64.encode,
      digits_group]
  | case4 a b c rest ih =>
    have ha := h a (by simp)
    have hb := h b (by simp)
    have hc := h c (by simp)
    rw [base64EncodeFrom]
    simp [deref, ha.1, hb.1, hc.1, get_selection ha, get_second a hb, get_third b hc, get_low,
      Base64.encode, digits_group, ih fun b hb ↦ h b (by simp [hb])]

/-- A zero byte ends the text. -/
theorem base64EncodeFrom_nul (h : ∀ b ∈ str, b ≠ 0) (rest : Bytes) :
    base64EncodeFrom signedChar (str ++ 0 :: rest) = base64EncodeFrom signedChar str := by
  induction str using Base64.encode.induct with
  | case1 =>
    rw [base64EncodeFrom, base64EncodeFrom]
    simp [deref]
  | case2 a =>
    rw [base64EncodeFrom, base64EncodeFrom]
    simp [deref]
  | case3 a b =>
    rw [base64EncodeFrom, base64EncodeFrom]
    simp [deref]
  | case4 a b c rest' ih =>
    have htail := ih fun b hb ↦ h b (by simp [hb])
    rw [base64EncodeFrom]
    conv_rhs => rw [base64EncodeFrom]
    simp [deref, htail]

theorem plain_of_not_le (h : b ≠ 0) (hneg : ¬128 ≤ b.toNat) : Plain signedChar b :=
  ⟨h, fun _ ↦ Nat.lt_of_not_le hneg⟩

/-- A negative `char` is looked up past the end of the table. -/
theorem base64EncodeFrom_negative (h : ∀ b ∈ str, b ≠ 0) (hneg : ∃ b ∈ str, 128 ≤ b.toNat) :
    base64EncodeFrom true str = none := by
  induction str using Base64.encode.induct with
  | case1 => simp at hneg
  | case2 a =>
    have ha : a ≠ 0 := h a (by simp)
    have hnega : 128 ≤ a.toNat := by simpa using hneg
    rw [base64EncodeFrom]
    simp [deref, ha, base64Table_none (negative_le hnega).1]
  | case3 a b =>
    have ha : a ≠ 0 := h a (by simp)
    have hb : b ≠ 0 := h b (by simp)
    rw [base64EncodeFrom]
    by_cases hnega : 128 ≤ a.toNat
    · simp [deref, ha, base64Table_none (negative_le hnega).1]
    · have hnegb : 128 ≤ b.toNat := by simpa [hnega] using hneg
      simp [deref, ha, hb, get_selection (plain_of_not_le ha hnega),
        base64Table_none (le_or_toNat _ (negative_le hnegb).2.1)]
  | case4 a b c rest' ih =>
    have ha : a ≠ 0 := h a (by simp)
    have hb : b ≠ 0 := h b (by simp)
    have hc : c ≠ 0 := h c (by simp)
    rw [base64EncodeFrom]
    by_cases hnega : 128 ≤ a.toNat
    · simp [deref, ha, base64Table_none (negative_le hnega).1]
    by_cases hnegb : 128 ≤ b.toNat
    · simp [deref, ha, hb, get_selection (plain_of_not_le ha hnega),
        base64Table_none (le_or_toNat _ (negative_le hnegb).2.1)]
    by_cases hnegc : 128 ≤ c.toNat
    · simp [deref, ha, hb, hc, get_selection (plain_of_not_le ha hnega),
        get_second a (plain_of_not_le hb hnegb),
        base64Table_none (le_or_toNat _ (negative_le hnegc).2.2)]
    have hneg' : ∃ b ∈ rest', 128 ≤ b.toNat := by simpa [hnega, hnegb, hnegc] using hneg
    simp [deref, ha, hb, hc, get_low, get_selection (plain_of_not_le ha hnega),
      get_second a (plain_of_not_le hb hnegb), get_third b (plain_of_not_le hc hnegc),
      ih (fun b hb ↦ h b (by simp [hb])) hneg']

theorem plain_or_none (signedChar : Bool) (h : ∀ b ∈ str, b ≠ 0) :
    (∀ b ∈ str, Plain signedChar b) ∨ base64EncodeFrom signedChar str = none := by
  cases signedChar with
  | false => exact .inl fun b hb ↦ ⟨h b hb, by simp⟩
  | true =>
    by_cases hneg : ∃ b ∈ str, 128 ≤ b.toNat
    · exact .inr (base64EncodeFrom_negative h hneg)
    · refine .inl fun b hb ↦ plain_of_not_le (h b hb) ?_
      intro hle
      exact hneg ⟨b, hb, hle⟩

/-- The result is the encoding of the whole text, and every index stays in the table. -/
structure IsBase64 (signedChar : Bool) (str : Bytes) : Prop where
  encodes : base64Encode signedChar str = some (Base64.encode str)
  decodes : ((base64Encode signedChar str).bind Base64.decode) = some str
  length : (base64Encode signedChar str).map List.length = some (4 * ((str.length + 2) / 3))

theorem isBase64_iff (signedChar : Bool) (str : Bytes) :
    IsBase64 signedChar str ↔ ∀ b ∈ str, b ≠ 0 ∧ (signedChar → b.toNat < 128) := by
  constructor
  · intro h
    have hencodes := h.encodes
    have hnul : (0 : UInt8) ∉ str := by
      intro hmem
      obtain ⟨before, after, rfl, hbefore⟩ := List.eq_append_cons_of_mem hmem
      have hne : ∀ b ∈ before, b ≠ 0 := fun b hb h ↦ hbefore (h ▸ hb)
      rw [base64Encode, base64EncodeFrom_nul hne] at hencodes
      rcases plain_or_none signedChar hne with hplain | hnone
      · rw [base64EncodeFrom_of_plain hplain] at hencodes
        have hsame := Base64.encode_injective (Option.some.inj hencodes)
        simp at hsame
      · rw [hnone] at hencodes
        cases hencodes
    have hne : ∀ b ∈ str, b ≠ 0 := fun b hb h ↦ hnul (h ▸ hb)
    rcases plain_or_none signedChar hne with hplain | hnone
    · exact hplain
    · rw [base64Encode, hnone] at hencodes
      cases hencodes
  · intro h
    have hencode : base64Encode signedChar str = some (Base64.encode str) :=
      base64EncodeFrom_of_plain h
    refine ⟨hencode, ?_, ?_⟩
    · rw [hencode, Option.bind_some, Base64.decode_encode]
    · rw [hencode, Option.map_some, Base64.length_encode]

example : base64Encode true "fooba".toUTF8.toList = some "Zm9vYmE=".toList := by decide +kernel

/-- A letter that is not ASCII, and a zero byte. -/
theorem not_isBase64 :
    ¬IsBase64 true "é".toUTF8.toList ∧ ∀ signedChar, ¬IsBase64 signedChar [0x61, 0, 0x62] := by
  constructor
  · intro h
    have hnone : base64Encode true "é".toUTF8.toList = none := by decide +kernel
    have hencodes := h.encodes
    rw [hnone] at hencodes
    cases hencodes
  · intro signedChar h
    have hshort : base64Encode signedChar [0x61, 0, 0x62] = some "YQ==".toList := by
      cases signedChar <;> decide +kernel
    have hencodes := h.encodes
    rw [hshort] at hencodes
    exact absurd hencodes (by decide +kernel)

end ZoneMinder.Utils
