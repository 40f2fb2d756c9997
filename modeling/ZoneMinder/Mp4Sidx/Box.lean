import ZoneMinder.Lib.Segments
import ZoneMinder.Lib.Words

namespace ZoneMinder.Mp4Sidx

open Lib

def rb32 (p : Bytes) (i : ℕ) : UInt32 :=
  wordOf (byteAt p (i + 3)) (byteAt p (i + 2)) (byteAt p (i + 1)) (byteAt p i)

def rb64 (p : Bytes) (i : ℕ) : UInt64 := dwordOf (rb32 p (i + 4)) (rb32 p i)

def wb16 (v : UInt16) : Bytes := [(v >>> 8).toUInt8, v.toUInt8]

def wb32 (v : UInt32) : Bytes := [byteOf v 3, byteOf v 2, byteOf v 1, byteOf v 0]

def wb64 (v : UInt64) : Bytes := wb32 (v >>> 32).toUInt32 ++ wb32 v.toUInt32

def fourCC (a b c d : Char) : Bytes := [a.toUInt8, b.toUInt8, c.toUInt8, d.toUInt8]

/-- read_exact: all of the bytes or none. -/
def readExact (file : Bytes) (bytes : ℕ) (offset : ℤ) : Option Bytes :=
  let got := (file.drop offset.toNat).take bytes
  if 0 ≤ offset ∧ got.length = bytes then some got else none

/-- Offsets and sizes are int64_t; every one that is added up stays within the file. -/
structure Box where
  type : Bytes
  offset : ℤ
  size : ℤ
  header : ℤ
  deriving DecidableEq

namespace Box

def body (box : Box) : ℤ := box.offset + box.header

def endOffset (box : Box) : ℤ := box.offset + box.size

end Box

/-- The size that the first bytes of a box state, and how many bytes state it. -/
def boxSize (file : Bytes) (offset limit : ℤ) (head : Bytes) : Option (ℤ × ℤ) :=
  if rb32 head 0 = 1 then
    if limit < offset + 16 then none
    else (readExact file 8 (offset + 8)).map fun large ↦ ((rb64 large 0).toInt64.toInt, 16)
  else if rb32 head 0 = 0 then some (limit - offset, 8)
  else some ((rb32 head 0).toNat, 8)

def readBox (file : Bytes) (offset limit : ℤ) : Option Box :=
  if offset < 0 ∨ limit < offset + 8 then none
  else do
    let head ← readExact file 8 offset
    let (size, header) ← boxSize file offset limit head
    if size < header ∨ limit - size < offset then none
    else some ⟨head.drop 4, offset, size, header⟩

/-- What a loop over the boxes of [start, stop) reads, and whether it ends without a failed
read_box. No such loop lets what it does with one box decide where it looks for the next. -/
def boxes (file : Bytes) (start stop : ℤ) : List Box × Bool :=
  segments (readBox file · stop) Box.endOffset 8 stop start

def findBox (file : Bytes) (start stop : ℤ) (type : Bytes) : Option Box :=
  (boxes file start stop).1.find? (·.type = type)

def mediaEnd (file : Bytes) (fileSize : ℤ) : ℤ :=
  if fileSize < 16 then fileSize
  else
    match readExact file 16 (fileSize - 16) with
    | none => fileSize
    | some tail =>
      if rb32 tail 0 ≠ 16 ∨ (tail.drop 4).take 4 ≠ fourCC 'm' 'f' 'r' 'o' then fileSize
      else
        let mfraSize : ℤ := (rb32 tail 12).toNat
        if mfraSize ≤ 0 ∨ fileSize < mfraSize then fileSize
        else
          match readBox file (fileSize - mfraSize) fileSize with
          | none => fileSize
          | some mfra =>
            if mfra.type ≠ fourCC 'm' 'f' 'r' 'a' ∨ mfra.size ≠ mfraSize then fileSize
            else fileSize - mfraSize

variable {file a b c : Bytes} {offset limit : ℤ} {head type : Bytes} {box : Box} {n : ℕ}

@[simp] theorem rb32_wb32 (v : UInt32) (l : Bytes) : rb32 (wb32 v ++ l) 0 = v :=
  wordOf_byteOf v

@[simp] theorem wb32_length (v : UInt32) : (wb32 v).length = 4 := rfl

@[simp] theorem wb64_length (v : UInt64) : (wb64 v).length = 8 := rfl

@[simp] theorem fourCC_length (a b c d : Char) : (fourCC a b c d).length = 4 := rfl

theorem readExact_eq_some (h : readExact file n offset = some a) :
    0 ≤ offset ∧ a = (file.drop offset.toNat).take n ∧ a.length = n := by
  simp only [readExact] at h
  split at h
  · next hread =>
    obtain rfl := Option.some.inj h
    exact ⟨hread.1, rfl, hread.2⟩
  · contradiction

theorem readExact_append (a b c : Bytes) :
    readExact (a ++ (b ++ c)) b.length a.length = some b := by
  simp [readExact]

theorem boxSize_header {size header : ℤ}
    (h : boxSize file offset limit head = some (size, header)) : header = 8 ∨ header = 16 := by
  unfold boxSize at h
  split at h
  · split at h
    · contradiction
    · obtain ⟨large, -, hl⟩ := Option.map_eq_some_iff.mp h
      exact .inr (congrArg Prod.snd hl).symm
  · split at h
    · exact .inl (congrArg Prod.snd (Option.some.inj h)).symm
    · exact .inl (congrArg Prod.snd (Option.some.inj h)).symm

theorem readBox_eq_some : readBox file offset limit = some box ↔
    0 ≤ offset ∧ offset + 8 ≤ limit ∧ ∃ head size header, readExact file 8 offset = some head ∧
      boxSize file offset limit head = some (size, header) ∧ header ≤ size ∧
      offset + size ≤ limit ∧ box = ⟨head.drop 4, offset, size, header⟩ := by
  unfold readBox
  constructor
  · intro h
    split at h
    · contradiction
    · next hguard =>
      obtain ⟨head, hhead, h⟩ := Option.bind_eq_some_iff.mp h
      obtain ⟨⟨size, header⟩, hsize, h⟩ := Option.bind_eq_some_iff.mp h
      dsimp only at h
      split at h
      · contradiction
      · next hfit =>
        exact ⟨by omega, by omega, head, size, header, hhead, hsize, by omega, by omega,
          (Option.some.inj h).symm⟩
  · rintro ⟨hoffset, hlimit, head, size, header, hhead, hsize, hle, hfit, rfl⟩
    rw [if_neg (by omega), hhead, Option.bind_eq_bind, Option.bind_some, hsize, Option.bind_eq_bind,
      Option.bind_some]
    exact if_neg (by omega)

theorem readExact_append_left {x y : Bytes} (h : offset + n ≤ a.length) :
    readExact (a ++ x) n offset = readExact (a ++ y) n offset := by
  unfold readExact
  by_cases h0 : 0 ≤ offset
  · have hdrop : offset.toNat ≤ a.length := by omega
    have htake : n ≤ (a.drop offset.toNat).length := by rw [List.length_drop]; omega
    rw [List.drop_append_of_le_length hdrop, List.drop_append_of_le_length hdrop,
      List.take_append_of_le_length htake, List.take_append_of_le_length htake]
  · rw [if_neg fun hc ↦ h0 hc.1, if_neg fun hc ↦ h0 hc.1]

theorem readExact_append_right {x y : Bytes} (hlen : x.length = y.length) (h : x.length ≤ offset) :
    readExact (x ++ c) n offset = readExact (y ++ c) n offset := by
  have hx : x.drop offset.toNat = [] := List.drop_of_length_le (by omega)
  have hy : y.drop offset.toNat = [] := List.drop_of_length_le (by omega)
  unfold readExact
  rw [List.drop_append, List.drop_append, hx, hy, hlen]

theorem readBox_spec (h : readBox file offset limit = some box) : 0 ≤ offset ∧
    box.offset = offset ∧ 8 ≤ box.header ∧ box.header ≤ box.size ∧ box.endOffset ≤ limit := by
  obtain ⟨hoffset, -, head, size, header, -, hsize, hle, hfit, rfl⟩ := readBox_eq_some.mp h
  have hheader := boxSize_header hsize
  exact ⟨hoffset, rfl, show 8 ≤ header by omega, hle, hfit⟩

theorem readBox_lt (pos : ℤ) (box : Box) (h : readBox file pos limit = some box) :
    pos < box.endOffset := by
  obtain ⟨-, hoffset, hheader, hle, -⟩ := readBox_spec h
  rw [Box.endOffset, hoffset]
  omega

theorem readBox_fits (pos : ℤ) (box : Box) (h : readBox file pos limit = some box) :
    pos + 8 ≤ limit := (readBox_eq_some.mp h).2.1

theorem readBox_append_left {x y : Bytes} (h : readBox (a ++ x) offset limit = some box)
    (hend : box.endOffset ≤ a.length) : readBox (a ++ y) offset limit = some box := by
  obtain ⟨hoffset, hlimit, head, size, header, hhead, hsize, hle, hfit, rfl⟩ := readBox_eq_some.mp h
  have hheader := boxSize_header hsize
  simp only [Box.endOffset] at hend
  refine readBox_eq_some.mpr ⟨hoffset, hlimit, head, size, header, ?_, ?_, hle, hfit, rfl⟩
  · rwa [readExact_append_left (y := y) (by omega)] at hhead
  · rcases hheader with rfl | rfl
    · unfold boxSize at hsize ⊢
      split at hsize
      · split at hsize
        · contradiction
        · obtain ⟨large, -, hl⟩ := Option.map_eq_some_iff.mp hsize
          simp at hl
      · next hne => rwa [if_neg hne]
    · unfold boxSize at hsize ⊢
      rwa [readExact_append_left (y := y) (by omega)] at hsize

theorem readBox_append_right {x y : Bytes} (hlen : x.length = y.length) (h : x.length ≤ offset) :
    readBox (x ++ c) offset limit = readBox (y ++ c) offset limit := by
  have hread (n : ℕ) := @readExact_append_right c offset n x y hlen h
  have hlarge := @readExact_append_right c (offset + 8) 8 x y hlen (by omega)
  unfold readBox boxSize
  rw [hread 8, hlarge]

theorem readBox_of_header {size : UInt32} (hsize : 8 ≤ size.toNat)
    (hread : readExact file 8 offset = some (wb32 size ++ type))
    (hlimit : offset + size.toNat ≤ limit) :
    readBox file offset limit = some ⟨type, offset, size.toNat, 8⟩ := by
  have hne1 : size ≠ 1 := by rintro rfl; simp at hsize
  have hne0 : size ≠ 0 := by rintro rfl; simp at hsize
  refine readBox_eq_some.mpr ⟨(readExact_eq_some hread).1, by omega, _, size.toNat, 8, hread, ?_,
    by omega, hlimit, rfl⟩
  rw [boxSize, rb32_wb32, if_neg hne1, if_neg hne0]

theorem readBox_append {size : UInt32} (htype : type.length = 4) (hsize : 8 ≤ size.toNat)
    (hlimit : a.length + size.toNat ≤ limit) :
    readBox (a ++ (wb32 size ++ (type ++ c))) a.length limit =
      some ⟨type, a.length, size.toNat, 8⟩ := by
  refine readBox_of_header hsize ?_ hlimit
  have hread := readExact_append a (wb32 size ++ type) c
  rwa [List.length_append, wb32_length, htype, List.append_assoc] at hread

end ZoneMinder.Mp4Sidx
