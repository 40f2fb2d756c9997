import ZoneMinder.Lib.Words

namespace Lib

/-- A half word from its low and high byte. -/
def halfOf (lo hi : UInt8) : UInt16 := lo.toUInt16 ||| hi.toUInt16 <<< 8

theorem halfOf_toNat (lo hi : UInt8) : (halfOf lo hi).toNat = lo.toNat + 256 * hi.toNat := by
  have hlo := lo.toNat_lt
  have hhi := hi.toNat_lt
  have hshift : (hi.toUInt16 <<< 8).toNat = hi.toNat <<< 8 := by
    simp [UInt16.toNat_shiftLeft, Nat.shiftLeft_eq]
    omega
  rw [halfOf, UInt16.toNat_or, hshift, UInt8.toNat_toUInt16, or_shiftLeft 8 _ _ (by omega)]
  norm_num

@[simp] theorem halfOf_bytes (v : UInt16) : halfOf v.toUInt8 (v >>> 8).toUInt8 = v := by
  apply UInt16.toNat_inj.mp
  have hv := v.toNat_lt
  rw [halfOf_toNat]
  simp only [UInt16.toNat_toUInt8, UInt16.toNat_shiftRight, UInt16.reduceToNat, Nat.reduceMod,
    Nat.shiftRight_eq_div_pow, Nat.reducePow]
  omega

theorem toUInt8_halfOf (lo hi : UInt8) : (halfOf lo hi).toUInt8 = lo := by
  have hlo := lo.toNat_lt
  rw [← UInt8.toNat_inj, UInt16.toNat_toUInt8, halfOf_toNat]
  omega

theorem toUInt8_halfOf_shift (lo hi : UInt8) : (halfOf lo hi >>> 8).toUInt8 = hi := by
  have hlo := lo.toNat_lt
  have hhi := hi.toNat_lt
  rw [← UInt8.toNat_inj, UInt16.toNat_toUInt8, UInt16.toNat_shiftRight, halfOf_toNat]
  simp only [UInt16.reduceToNat, Nat.reduceMod, Nat.shiftRight_eq_div_pow, Nat.reducePow]
  omega

/-- A tag with a value whose length 16 bits can state. -/
structure Tlv where
  tag : UInt8
  value : Bytes
  fits : value.length < 2 ^ 16
  deriving DecidableEq

namespace Tlv

def length (t : Tlv) : UInt16 := UInt16.ofNat t.value.length

/-- The tag, the length in little-endian order, and the value. -/
def encode (t : Tlv) : Bytes :=
  t.tag :: t.length.toUInt8 :: (t.length >>> 8).toUInt8 :: t.value

theorem length_toNat (t : Tlv) : t.length.toNat = t.value.length := by
  have hfits := t.fits
  rw [length, UInt16.toNat_ofNat']
  omega

@[simp] theorem encode_length (t : Tlv) : t.encode.length = 3 + t.value.length := by
  rw [encode, List.length_cons, List.length_cons, List.length_cons]
  omega

end Tlv

/-- A list of them, one behind the other. -/
def encodeTlvs (ts : List Tlv) : Bytes := ts.flatMap Tlv.encode

/-- The first tag and value and the bytes behind them, none where those are cut short. -/
def readTlv : Bytes → Option (UInt8 × Bytes × Bytes)
  | tag :: lo :: hi :: rest =>
    if rest.length < (halfOf lo hi).toNat then none
    else some (tag, rest.take (halfOf lo hi).toNat, rest.drop (halfOf lo hi).toNat)
  | _ => none

variable {σ : Type} (field : σ → UInt8 → Bytes → Option σ)

/-- The loop over the TLVs of some bytes; every round takes three bytes or more, so the
number of bytes bounds the number of rounds. -/
def foldTlvsFrom : ℕ → σ → Bytes → Option σ
  | _, s, [] => some s
  | 0, _, _ :: _ => none
  | rounds + 1, s, byte :: bytes => do
    let (tag, value, rest) ← readTlv (byte :: bytes)
    let s ← field s tag value
    foldTlvsFrom rounds s rest

def foldTlvs (s : σ) (bytes : Bytes) : Option σ := foldTlvsFrom field bytes.length s bytes

variable {field} {s s' : σ} {bytes rest value : Bytes} {tag : UInt8} {ts us : List Tlv}

@[simp] theorem encodeTlvs_append (ts us : List Tlv) :
    encodeTlvs (ts ++ us) = encodeTlvs ts ++ encodeTlvs us := List.flatMap_append

@[simp] theorem encodeTlvs_cons (t : Tlv) (ts : List Tlv) :
    encodeTlvs (t :: ts) = t.encode ++ encodeTlvs ts := List.flatMap_cons

@[simp] theorem readTlv_encode (t : Tlv) (rest : Bytes) :
    readTlv (t.encode ++ rest) = some (t.tag, t.value, rest) := by
  have hlen : (halfOf t.length.toUInt8 (t.length >>> 8).toUInt8).toNat = t.value.length := by
    rw [halfOf_bytes, t.length_toNat]
  rw [Tlv.encode, List.cons_append, List.cons_append, List.cons_append, readTlv, hlen,
    List.length_append, if_neg (by omega), List.take_left, List.drop_left]

theorem readTlv_eq_some (h : readTlv bytes = some (tag, value, rest)) :
    ∃ t : Tlv, t.tag = tag ∧ t.value = value ∧ bytes = t.encode ++ rest := by
  match bytes, h with
  | first :: lo :: hi :: more, h =>
    rw [readTlv] at h
    split at h
    · contradiction
    · next hlen =>
      obtain ⟨rfl, hvalue, rfl⟩ : first = tag ∧ _ = value ∧ _ = rest := by
        simpa only [Option.some.injEq, Prod.mk.injEq] using h
      have hlt := (halfOf lo hi).toNat_lt
      have hvlen : value.length = (halfOf lo hi).toNat := by
        rw [← hvalue, List.length_take]
        omega
      refine ⟨⟨first, value, by omega⟩, rfl, rfl, ?_⟩
      have hhalf : Tlv.length ⟨first, value, by omega⟩ = halfOf lo hi := by
        rw [Tlv.length, hvlen, UInt16.ofNat_toNat]
      have hmore : value ++ more.drop (halfOf lo hi).toNat = more := by
        rw [← hvalue, List.take_append_drop]
      rw [Tlv.encode, hhalf, toUInt8_halfOf, toUInt8_halfOf_shift, List.cons_append,
        List.cons_append, List.cons_append, hmore]

theorem readTlv_take {t : Tlv} {k : ℕ} (hk : k < t.encode.length) :
    readTlv (t.encode.take k) = none := by
  cases hread : readTlv (t.encode.take k) with
  | none => rfl
  | some r =>
    obtain ⟨tag, value, rest⟩ := r
    obtain ⟨u, -, -, hu⟩ := readTlv_eq_some hread
    have hwhole : t.encode ++ [] = u.encode ++ (rest ++ t.encode.drop k) := by
      rw [List.append_nil, ← List.append_assoc, ← hu, List.take_append_drop]
    have hsame := congrArg readTlv hwhole
    rw [readTlv_encode, readTlv_encode] at hsame
    have hrest : [] = rest ++ t.encode.drop k := congrArg (·.2.2) (Option.some.inj hsame)
    have hnil := congrArg List.length (List.append_eq_nil_iff.mp hrest.symm).2
    rw [List.length_drop, List.length_nil] at hnil
    omega

theorem foldTlvsFrom_rounds {n m : ℕ} (hn : bytes.length ≤ n) (hm : bytes.length ≤ m) :
    foldTlvsFrom field n s bytes = foldTlvsFrom field m s bytes := by
  induction n generalizing m s bytes with
  | zero =>
    obtain rfl := List.length_eq_zero_iff.mp (Nat.le_zero.mp hn)
    cases m <;> rfl
  | succ n ih =>
    cases bytes with
    | nil => cases m <;> rfl
    | cons byte bytes =>
      cases m with
      | zero => contradiction
      | succ m =>
        rw [foldTlvsFrom, foldTlvsFrom]
        cases hread : readTlv (byte :: bytes) with
        | none => rfl
        | some r =>
          obtain ⟨tag, value, rest⟩ := r
          obtain ⟨t, -, -, ht⟩ := readTlv_eq_some hread
          have hlen := congrArg List.length ht
          rw [List.length_append, t.encode_length] at hlen
          dsimp only [Option.bind_eq_bind, Option.bind_some]
          cases field s tag value with
          | none => rfl
          | some s => exact ih (by omega) (by omega)

@[simp] theorem foldTlvs_nil : foldTlvs field s [] = some s := rfl

theorem foldTlvs_cons (t : Tlv) (rest : Bytes) : foldTlvs field s (t.encode ++ rest) =
    (field s t.tag t.value).bind fun s ↦ foldTlvs field s rest := by
  have hlen : (t.encode ++ rest).length = 2 + t.value.length + rest.length + 1 := by
    rw [List.length_append, t.encode_length]
    omega
  rw [foldTlvs, hlen]
  have hread := readTlv_encode t rest
  rw [Tlv.encode, List.cons_append] at hread ⊢
  rw [foldTlvsFrom, hread]
  dsimp only [Option.bind_eq_bind, Option.bind_some]
  cases field s t.tag t.value with
  | none => rfl
  | some s => exact foldTlvsFrom_rounds (by omega) le_rfl

/-- The loop is a fold over the list it was encoded from. -/
theorem foldTlvs_append (ts : List Tlv) (rest : Bytes) :
    foldTlvs field s (encodeTlvs ts ++ rest) =
      (ts.foldlM (fun s t ↦ field s t.tag t.value) s).bind fun s ↦ foldTlvs field s rest := by
  induction ts generalizing s with
  | nil => rfl
  | cons t ts ih =>
    rw [encodeTlvs_cons, List.append_assoc, foldTlvs_cons, List.foldlM_cons]
    cases field s t.tag t.value with
    | none => rfl
    | some s => exact ih

theorem foldTlvs_encode (ts : List Tlv) : foldTlvs field s (encodeTlvs ts) =
    ts.foldlM (fun s t ↦ field s t.tag t.value) s := by
  have happ := @foldTlvs_append σ field s ts []
  rw [List.append_nil] at happ
  rw [happ]
  exact Option.bind_fun_some _

/-- What the loop accepts is an encoded list. -/
theorem exists_encode (h : foldTlvs field s bytes = some s') : ∃ ts, bytes = encodeTlvs ts := by
  induction hlen : bytes.length using Nat.strong_induction_on generalizing s bytes with
  | _ n ih =>
    cases bytes with
    | nil => exact ⟨[], rfl⟩
    | cons byte bytes =>
      have hstep := h
      rw [foldTlvs, List.length_cons, foldTlvsFrom] at hstep
      obtain ⟨⟨tag, value, rest⟩, hread, -⟩ := Option.bind_eq_some_iff.mp hstep
      obtain ⟨t, -, -, ht⟩ := readTlv_eq_some hread
      have hlt := congrArg List.length ht
      rw [List.length_append, t.encode_length] at hlt
      rw [ht, foldTlvs_cons] at h
      obtain ⟨s, -, h⟩ := Option.bind_eq_some_iff.mp h
      obtain ⟨ts, hts⟩ := ih rest.length (by omega) h rfl
      exact ⟨t :: ts, by rw [ht, hts, encodeTlvs_cons]⟩

theorem foldTlvs_cut {t : Tlv} {k : ℕ} (h0 : 0 < k) (hk : k < t.encode.length) (ts : List Tlv) :
    foldTlvs field s (encodeTlvs ts ++ t.encode.take k) = none := by
  have hcut (s : σ) : foldTlvs field s (t.encode.take k) = none := by
    have hread := readTlv_take hk
    cases hbytes : t.encode.take k with
    | nil =>
      have hlen := congrArg List.length hbytes
      rw [List.length_take, List.length_nil] at hlen
      omega
    | cons byte bytes =>
      rw [hbytes] at hread
      rw [foldTlvs, List.length_cons, foldTlvsFrom, hread]
      rfl
  rw [foldTlvs_append]
  simp only [hcut, Option.bind_fun_none]

/-- Fields that change nothing may be put in anywhere. -/
theorem foldTlvs_insert (pre skipped post : List Tlv)
    (hskip : ∀ t ∈ skipped, ∀ s, field s t.tag t.value = some s) :
    foldTlvs field s (encodeTlvs (pre ++ skipped ++ post)) =
      foldTlvs field s (encodeTlvs (pre ++ post)) := by
  have hnone (s : σ) : skipped.foldlM (fun s t ↦ field s t.tag t.value) s = some s := by
    induction skipped with
    | nil => rfl
    | cons t ts ih =>
      rw [List.foldlM_cons, hskip t List.mem_cons_self s]
      exact ih fun t ht ↦ hskip t (List.mem_cons_of_mem _ ht)
  rw [foldTlvs_encode, foldTlvs_encode, List.append_assoc, List.foldlM_append, List.foldlM_append]
  simp only [List.foldlM_append, hnone, Option.bind_eq_bind, Option.bind_some]

end Lib
