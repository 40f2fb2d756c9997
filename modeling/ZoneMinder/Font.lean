import ZoneMinder.Lib.Lists
import ZoneMinder.Lib.Overwrite
import ZoneMinder.Lib.Words
import Mathlib.Data.List.FinRange

namespace ZoneMinder

open Lib

namespace Font

def kRequiredZmFntVersion : UInt8 := 1

abbrev kNumFontSizes : ℕ := 4

inductive FontLoadError
  | kOk
  | kFileNotFound
  | kInvalidFile
  deriving DecidableEq

/-- What ends the program. -/
inductive Fault
  | divisionByZero
  | invalidArgument (what : String)
  deriving DecidableEq

def kMaxNumCodePoints : UInt32 := 255

def kMaxCharHeight : UInt16 := 200

def kMaxCharWidth : UInt16 := 64

structure FontVariant where
  charHeight : UInt16
  charWidth : UInt16
  charPadding : UInt8
  codepointCount : UInt8
  bitmap : List UInt64
  deriving DecidableEq

def FontVariant.empty : FontVariant := ⟨0, 0, 0, 0, []⟩

/-- The constructor from what a file says. -/
def fontVariant (charHeight charWidth : UInt16) (charPadding : UInt8) (bitmap : List UInt64) :
    Except Fault FontVariant :=
  if charHeight > kMaxCharHeight then .error (.invalidArgument "char_height > kMaxCharHeight")
  else if charWidth > kMaxCharWidth then .error (.invalidArgument "char_width > kMaxCharWidth")
  else if charHeight = 0 then .error .divisionByZero
  else if bitmap.length % charHeight.toNat ≠ 0 then
    .error (.invalidArgument "bitmap has wrong length")
  else .ok ⟨charHeight, charWidth, charPadding, .ofNat (bitmap.length / charHeight.toNat), bitmap⟩

/-- The rows of a code point, none where they are not in the bitmap. -/
def FontVariant.getCodepoint (v : FontVariant) (idx : UInt8) : Option (List UInt64) :=
  if idx ≥ v.codepointCount then
    span (List.replicate kMaxCharHeight.toNat 0) 0 v.charHeight.toNat
  else span v.bitmap (idx.toNat * v.charHeight.toNat) v.charHeight.toNat

/-- A file as it is read. The bit for an end of the file is set with `failbit` only. -/
structure Stream where
  content : Bytes
  pos : ℕ
  failbit : Bool

/-- What is read replaces the bytes that were there, or the first of them. -/
def Stream.read (s : Stream) (old : Bytes) : Bytes × Stream :=
  if s.failbit then (old, s)
  else
    let got := (s.content.drop s.pos).take old.length
    (got ++ old.drop got.length,
      { s with pos := s.pos + got.length, failbit := decide (got.length < old.length) })

def Stream.seekg (s : Stream) (n : ℕ) : Stream :=
  if s.failbit then s else { s with pos := s.pos + n }

structure FontBitmapHeader where
  charHeight : UInt16
  charWidth : UInt16
  numberOfCodePoints : UInt32
  charPadding : UInt8
  deriving DecidableEq

/-- A record as it lies in memory, without `idx` and the padding of the record. -/
def FontBitmapHeader.ofBytes (l : Bytes) : FontBitmapHeader where
  charHeight := (byteAt l 0).toUInt16 ||| (byteAt l 1).toUInt16 <<< 8
  charWidth := (byteAt l 2).toUInt16 ||| (byteAt l 3).toUInt16 <<< 8
  numberOfCodePoints := wordOf (byteAt l 4) (byteAt l 5) (byteAt l 6) (byteAt l 7)
  charPadding := byteAt l 12

structure FontFileHeader where
  magic : Bytes
  version : UInt8
  bitmapHeader : Fin kNumFontSizes → FontBitmapHeader

def readBitmapHeaders : List (Fin kNumFontSizes) → (Fin kNumFontSizes → FontBitmapHeader) →
    Stream → (Fin kNumFontSizes → FontBitmapHeader) × Stream
  | [], headers, s => (headers, s)
  | i :: is, headers, s =>
    let (record, s) := s.read (List.replicate 16 0)
    readBitmapHeaders is (Function.update headers i (.ofBytes record)) s

def FontFileHeader.read (s : Stream) : FontFileHeader × Stream :=
  let (magic, s) := s.read (List.replicate 6 0)
  let (version, s) := s.read [0]
  let s := s.seekg 1
  let (bitmapHeader, s) := readBitmapHeaders (List.finRange kNumFontSizes)
    (fun _ ↦ .ofBytes (List.replicate 16 0)) s
  (⟨magic, byteAt version 0, bitmapHeader⟩, s)

/-- Eight bytes in the order of the host. -/
def rowOf (l : Bytes) : UInt64 :=
  dwordOf (wordOf (byteAt l 0) (byteAt l 1) (byteAt l 2) (byteAt l 3))
    (wordOf (byteAt l 4) (byteAt l 5) (byteAt l 6) (byteAt l 7))

/-- The variants of a font, `variants_`. -/
abbrev ZmFont := Fin kNumFontSizes → FontVariant

def FontBitmapHeader.tooLarge (h : FontBitmapHeader) : Bool :=
  h.charWidth > kMaxCharWidth || h.charHeight > kMaxCharHeight ||
    h.numberOfCodePoints > kMaxNumCodePoints

def loadVariants (headers : Fin kNumFontSizes → FontBitmapHeader) :
    List (Fin kNumFontSizes) → ZmFont → Stream → Except Fault (FontLoadError × ZmFont)
  | [], font, s => .ok (if s.failbit then .kInvalidFile else .kOk, font)
  | i :: is, font, s =>
    let h := headers i
    if h.tooLarge then .ok (.kInvalidFile, font)
    else
      let rows := h.numberOfCodePoints.toNat * h.charHeight.toNat
      let (bytes, s) := s.read (List.replicate (rows * 8) 0)
      match fontVariant h.charHeight h.charWidth h.charPadding ((chunks 8 bytes).map rowOf) with
      | .error fault => .error fault
      | .ok v => loadVariants headers is (Function.update font i v) s

/-- `"ZMFNT"` -/
def requiredMagic : Bytes := [0x5a, 0x4d, 0x46, 0x4e, 0x54]

/-- No file where the font is not found. -/
def loadFontFile (font : ZmFont) : Option Bytes → Except Fault (FontLoadError × ZmFont)
  | none => .ok (.kFileNotFound, font)
  | some content =>
    let (header, s) := FontFileHeader.read ⟨content, 0, false⟩
    if s.failbit then .ok (.kInvalidFile, font)
    else if header.magic.take 5 ≠ requiredMagic ∨ header.version ≠ kRequiredZmFntVersion then
      .ok (.kInvalidFile, font)
    else loadVariants header.bitmapHeader (List.finRange kNumFontSizes) font s

/-- The record of a variant in a file. -/
def headerAt (content : Bytes) (i : ℕ) : FontBitmapHeader :=
  .ofBytes ((content.drop (8 + 16 * i)).take 16)

/-- A file begins with a font header that is complete. -/
structure HasHeader (content : Bytes) : Prop where
  complete : 72 ≤ content.length
  magic : content.take 5 = requiredMagic
  version : byteAt content 6 = kRequiredZmFntVersion

section Reading

variable {s : Stream} {old content : Bytes} {p n : ℕ}

theorem Stream.read_eq (hle : p + old.length ≤ content.length) :
    Stream.read ⟨content, p, false⟩ old =
      ((content.drop p).take old.length, ⟨content, p + old.length, false⟩) := by
  have hlength : ((content.drop p).take old.length).length = old.length := by
    rw [List.length_take, List.length_drop]
    omega
  rw [Stream.read, if_neg Bool.false_ne_true]
  simp only [hlength, List.drop_length, List.append_nil, lt_irrefl, decide_false]

theorem Stream.read_length (s : Stream) (old : Bytes) : (s.read old).1.length = old.length := by
  rw [Stream.read]
  split_ifs
  · rfl
  · simp only [List.length_append, List.length_take, List.length_drop]
    omega

/-- A stream that is still good has got so far. -/
def Stream.At (s : Stream) (content : Bytes) (p : ℕ) : Prop :=
  s.content = content ∧ (s.failbit = false → s.pos = p)

theorem Stream.At.read (h : s.At content p) (old : Bytes) (hn : old.length = n) (hpos : 0 < n) :
    (s.read old).2.At content (p + n) ∧
      ((s.read old).2.failbit = false → p + n ≤ content.length) := by
  obtain ⟨rfl, hp⟩ := h
  rw [Stream.read]
  split_ifs with hfail
  · exact ⟨⟨rfl, fun hgood ↦ absurd hfail (Bool.eq_false_iff.mp hgood)⟩,
      fun hgood ↦ absurd hfail (Bool.eq_false_iff.mp hgood)⟩
  · obtain rfl := hp (Bool.not_eq_true _ ▸ hfail)
    simp only [Stream.At, List.length_take, List.length_drop, true_and, decide_eq_false_iff_not]
    omega

theorem Stream.At.seekg (h : s.At content p) (n : ℕ) : (s.seekg n).At content (p + n) := by
  rw [Stream.seekg]
  split_ifs with hfail
  · exact ⟨h.1, fun hgood ↦ absurd hfail (Bool.eq_false_iff.mp hgood)⟩
  · exact ⟨h.1, fun hgood ↦ congrArg (· + n) (h.2 hgood)⟩

theorem Stream.At.readBitmapHeaders (h : s.At content p) (is : List (Fin kNumFontSizes))
    (headers : Fin kNumFontSizes → FontBitmapHeader) :
    (readBitmapHeaders is headers s).2.At content (p + 16 * is.length) ∧
      (is ≠ [] → (readBitmapHeaders is headers s).2.failbit = false →
        p + 16 * is.length ≤ content.length) := by
  induction is generalizing s p headers with
  | nil => exact ⟨h, fun hnil ↦ absurd rfl hnil⟩
  | cons i is ih =>
    obtain ⟨hat, hle⟩ := h.read (List.replicate 16 0) List.length_replicate (by decide)
    obtain ⟨hat', hle'⟩ := ih hat (Function.update headers i (.ofBytes (s.read _).1))
    have hsum : p + 16 * (i :: is).length = p + 16 + 16 * is.length := by
      rw [List.length_cons]
      omega
    rw [hsum]
    refine ⟨hat', fun _ hgood ↦ ?_⟩
    cases is with
    | nil => exact hle hgood
    | cons j is => exact hle' (List.cons_ne_nil j is) hgood

theorem FontFileHeader.read_eq (h : 72 ≤ content.length) :
    FontFileHeader.read ⟨content, 0, false⟩ =
      (⟨content.take 6, byteAt content 6, fun i ↦ headerAt content i⟩, ⟨content, 72, false⟩) := by
  have hread {p n : ℕ} (hle : p + n ≤ 72) : Stream.read ⟨content, p, false⟩ (List.replicate n 0) =
      ((content.drop p).take n, ⟨content, p + n, false⟩) := by
    have hread := @Stream.read_eq (List.replicate n 0) content p
    rw [List.length_replicate] at hread
    exact hread (by omega)
  have hfin : List.finRange kNumFontSizes = [0, 1, 2, 3] := by decide
  have hversion : Stream.read ⟨content, 6, false⟩ [0] = _ := hread (n := 1) (by decide)
  have hbyte : byteAt ((content.drop 6).take 1) 0 = byteAt content 6 := by
    simp [byteAt]
  rw [FontFileHeader.read]
  simp (disch := decide) only [hread, hversion, Stream.seekg, hfin, readBitmapHeaders, hbyte,
    Bool.false_eq_true, if_false, List.drop_zero, Nat.reduceAdd]
  congr
  exact funext fun
    | 0 => rfl
    | 1 => rfl
    | 2 => rfl
    | 3 => rfl

theorem FontFileHeader.complete_of_read
    (h : (FontFileHeader.read ⟨content, 0, false⟩).2.failbit = false) : 72 ≤ content.length := by
  have hstart : Stream.At ⟨content, 0, false⟩ content 0 := ⟨rfl, fun _ ↦ rfl⟩
  have hmagic := (hstart.read (List.replicate 6 0) List.length_replicate (by decide)).1
  have hversion := (hmagic.read [0] rfl Nat.one_pos).1
  exact ((hversion.seekg 1).readBitmapHeaders (List.finRange kNumFontSizes)
    (fun _ ↦ .ofBytes (List.replicate 16 0))).2 (by decide) h

end Reading

/-- What a header says, within the limits. -/
structure FontBitmapHeader.Loaded (h : FontBitmapHeader) (v : FontVariant) : Prop where
  charHeight_le : v.charHeight ≤ kMaxCharHeight
  charWidth_le : v.charWidth ≤ kMaxCharWidth
  bitmap : v.bitmap.length = v.codepointCount.toNat * v.charHeight.toNat
  codepointCount : v.codepointCount.toNat = h.numberOfCodePoints.toNat

/-- What the constructor makes. -/
structure FontVariant.Valid (v : FontVariant) : Prop where
  charHeight_ne : v.charHeight ≠ 0
  charHeight_le : v.charHeight ≤ kMaxCharHeight
  charWidth_le : v.charWidth ≤ kMaxCharWidth
  bitmap : v.codepointCount.toNat * v.charHeight.toNat ≤ v.bitmap.length

section Variants

variable {h : FontBitmapHeader} {v : FontVariant} {content : Bytes}
  {headers : Fin kNumFontSizes → FontBitmapHeader} {is : List (Fin kNumFontSizes)}

theorem exists_getCodepoint (hle : v.charHeight ≤ kMaxCharHeight)
    (hbitmap : v.codepointCount.toNat * v.charHeight.toNat ≤ v.bitmap.length) (idx : UInt8) :
    ∃ rows, v.getCodepoint idx = some rows ∧ rows.length = v.charHeight.toNat := by
  have hheight : v.charHeight.toNat ≤ kMaxCharHeight.toNat := UInt16.le_iff_toNat_le.mp hle
  have hempty : (List.replicate kMaxCharHeight.toNat (0 : UInt64)).length = kMaxCharHeight.toNat :=
    List.length_replicate
  rw [FontVariant.getCodepoint]
  split_ifs with hidx
  · refine ⟨_, span_of_le (by rw [Nat.zero_add, hempty]; exact hheight), ?_⟩
    rw [List.drop_zero, List.length_take, hempty, Nat.min_eq_left hheight]
  · have hlt : idx.toNat < v.codepointCount.toNat :=
      UInt8.lt_iff_toNat_lt.mp (UInt8.not_le.mp hidx)
    have hend : idx.toNat * v.charHeight.toNat + v.charHeight.toNat ≤ v.bitmap.length := by
      rw [← Nat.succ_mul]
      exact (Nat.mul_le_mul_right _ hlt).trans hbitmap
    refine ⟨_, span_of_le hend, ?_⟩
    rw [List.length_take, List.length_drop]
    omega

theorem FontBitmapHeader.Loaded.getCodepoint (hv : h.Loaded v) (idx : UInt8) :
    ∃ rows, v.getCodepoint idx = some rows ∧ rows.length = v.charHeight.toNat :=
  exists_getCodepoint hv.charHeight_le hv.bitmap.ge idx

theorem fontVariant_valid {charHeight charWidth : UInt16} {charPadding : UInt8}
    {bitmap : List UInt64} (hv : fontVariant charHeight charWidth charPadding bitmap = .ok v) :
    v.Valid := by
  rw [fontVariant] at hv
  split_ifs at hv with hheight hwidth hzero
  obtain rfl := Except.ok.inj hv
  refine ⟨hzero, UInt16.not_lt.mp hheight, UInt16.not_lt.mp hwidth, ?_⟩
  rw [UInt8.toNat_ofNat']
  exact (Nat.mul_le_mul_right _ (Nat.mod_le _ _)).trans (Nat.div_mul_le_self _ _)

theorem loadVariants_valid {font font' : ZmFont} {s : Stream} (hrest : ∀ i ∉ is, (font i).Valid)
    (hload : loadVariants headers is font s = .ok (.kOk, font')) (i : Fin kNumFontSizes) :
    (font' i).Valid := by
  induction is generalizing font s with
  | nil =>
    obtain rfl := (Prod.mk.inj (Except.ok.inj hload)).2
    exact hrest i List.not_mem_nil
  | cons k is ih =>
    rw [loadVariants] at hload
    dsimp only at hload
    split at hload
    · cases hload
    · split at hload
      · cases hload
      next v hv =>
        refine ih (fun j hj ↦ ?_) hload
        by_cases hjk : j = k
        · rw [hjk, Function.update_self]
          exact fontVariant_valid hv
        · rw [Function.update_of_ne hjk]
          exact hrest j (by simp [hjk, hj])

/-- All variants of a font that has been loaded are valid. -/
theorem loadFontFile_valid {font font' : ZmFont} {file : Option Bytes}
    (hload : loadFontFile font file = .ok (.kOk, font')) (i : Fin kNumFontSizes) :
    (font' i).Valid := by
  cases file with
  | none => cases hload
  | some content =>
    rw [loadFontFile] at hload
    dsimp only at hload
    split at hload
    · cases hload
    · split at hload
      · cases hload
      · exact loadVariants_valid (fun j hj ↦ absurd (List.mem_finRange j) hj) hload i

theorem fontVariant_loaded {bitmap : List UInt64} (hlarge : h.tooLarge = false)
    (hheight : h.charHeight ≠ 0)
    (hbitmap : bitmap.length = h.numberOfCodePoints.toNat * h.charHeight.toNat) :
    ∃ v, fontVariant h.charHeight h.charWidth h.charPadding bitmap = .ok v ∧ h.Loaded v := by
  simp only [FontBitmapHeader.tooLarge, Bool.or_eq_false_iff, decide_eq_false_iff_not] at hlarge
  obtain ⟨⟨hw, hh⟩, hcount⟩ := hlarge
  have hpos : 0 < h.charHeight.toNat :=
    Nat.pos_of_ne_zero fun hzero ↦ hheight (UInt16.toNat_inj.mp hzero)
  have hdiv : bitmap.length / h.charHeight.toNat = h.numberOfCodePoints.toNat := by
    rw [hbitmap, Nat.mul_div_cancel _ hpos]
  have hmod : bitmap.length % h.charHeight.toNat = 0 := by
    rw [hbitmap, Nat.mul_mod_left]
  have hle : h.numberOfCodePoints.toNat ≤ 255 :=
    UInt32.le_iff_toNat_le.mp (UInt32.not_lt.mp hcount)
  have hnat : (UInt8.ofNat (bitmap.length / h.charHeight.toNat)).toNat =
      h.numberOfCodePoints.toNat := by
    rw [hdiv, UInt8.toNat_ofNat']
    omega
  rw [fontVariant, if_neg hh, if_neg hw, if_neg hheight, if_neg (not_not.mpr hmod)]
  exact ⟨_, rfl, UInt16.not_lt.mp hh, UInt16.not_lt.mp hw,
    hbitmap.trans (congrArg (· * _) hnat.symm), hnat⟩

theorem fontVariant_zero {bitmap : List UInt64} (hlarge : h.tooLarge = false)
    (hheight : h.charHeight = 0) :
    fontVariant h.charHeight h.charWidth h.charPadding bitmap = .error .divisionByZero := by
  simp only [FontBitmapHeader.tooLarge, Bool.or_eq_false_iff, decide_eq_false_iff_not] at hlarge
  rw [fontVariant, if_neg hlarge.1.2, if_neg hlarge.1.1, if_pos hheight]

/-- The bitmap has the size that the header asks for, whatever was left of the file. -/
theorem bitmap_length (s : Stream) (rows : ℕ) :
    ((chunks 8 (s.read (List.replicate (rows * 8) 0)).1).map rowOf).length = rows := by
  rw [List.length_map, chunks_length (by decide), Stream.read_length, List.length_replicate]
  omega

/-- One of the variants has no height and is reached: none up to it is too large. -/
def Reached (headers : Fin kNumFontSizes → FontBitmapHeader) (is : List (Fin kNumFontSizes)) :
    Prop :=
  ∃ i ∈ is, (headers i).charHeight = 0 ∧ ∀ j ∈ is, j ≤ i → (headers j).tooLarge = false

theorem loadVariants_reached (his : is.Pairwise (· < ·)) (hzero : Reached headers is)
    (font : ZmFont) (s : Stream) :
    loadVariants headers is font s = .error .divisionByZero := by
  induction is generalizing font s with
  | nil =>
    obtain ⟨i, hi, -⟩ := hzero
    exact absurd hi List.not_mem_nil
  | cons k is ih =>
    obtain ⟨hlt, his⟩ := List.pairwise_cons.mp his
    obtain ⟨i, hi, hheight, hlarge⟩ := hzero
    have hle : k ≤ i := by
      rcases List.mem_cons.mp hi with rfl | hi
      · exact le_rfl
      · exact (hlt i hi).le
    have hk := hlarge k List.mem_cons_self hle
    rw [loadVariants]
    simp only [hk, Bool.false_eq_true, if_false]
    by_cases hkzero : (headers k).charHeight = 0
    · rw [fontVariant_zero hk hkzero]
    · obtain ⟨v, hv, -⟩ := fontVariant_loaded hk hkzero (bitmap_length s _)
      rw [hv]
      have hi' : i ∈ is := (List.mem_cons.mp hi).resolve_left fun heq ↦ hkzero (heq ▸ hheight)
      exact ih his ⟨i, hi', hheight, fun j hj ↦ hlarge j (List.mem_cons_of_mem k hj)⟩ _ _

theorem loadVariants_loaded (his : is.Pairwise (· < ·)) (hzero : ¬ Reached headers is)
    (font : ZmFont) (s : Stream) :
    ∃ r font', loadVariants headers is font s = .ok (r, font') ∧ (r = .kOk ∨ r = .kInvalidFile) ∧
      (r = .kOk → ∀ i ∈ is, (headers i).Loaded (font' i)) ∧ ∀ i ∉ is, font' i = font i := by
  induction is generalizing font s with
  | nil =>
    refine ⟨_, font, rfl, ?_, fun _ i hi ↦ absurd hi List.not_mem_nil, fun _ _ ↦ rfl⟩
    split_ifs
    · exact .inr rfl
    · exact .inl rfl
  | cons k is ih =>
    obtain ⟨hlt, his⟩ := List.pairwise_cons.mp his
    rw [loadVariants]
    cases hk : (headers k).tooLarge with
    | true =>
      simp only [if_true]
      exact ⟨_, font, rfl, .inr rfl, fun hok ↦ FontLoadError.noConfusion hok, fun _ _ ↦ rfl⟩
    | false =>
      simp only [Bool.false_eq_true, if_false]
      have hkzero : (headers k).charHeight ≠ 0 := by
        intro hheight
        refine hzero ⟨k, List.mem_cons_self, hheight, fun j hj hle ↦ ?_⟩
        rcases List.mem_cons.mp hj with rfl | hj
        · exact hk
        · exact absurd (hlt j hj) (not_lt.mpr hle)
      have hrest : ¬ Reached headers is := by
        rintro ⟨i, hi, hheight, hlarge⟩
        refine hzero ⟨i, List.mem_cons_of_mem k hi, hheight, fun j hj hle ↦ ?_⟩
        rcases List.mem_cons.mp hj with rfl | hj
        · exact hk
        · exact hlarge j hj hle
      obtain ⟨v, hv, hloaded⟩ := fontVariant_loaded hk hkzero (bitmap_length s _)
      rw [hv]
      obtain ⟨r, font', heq, hr, hok, hsame⟩ := ih his hrest (Function.update font k v)
        (s.read (List.replicate
          ((headers k).numberOfCodePoints.toNat * (headers k).charHeight.toNat * 8) 0)).2
      refine ⟨r, font', heq, hr, fun hrok i hi ↦ ?_, fun i hi ↦ ?_⟩
      · rcases List.mem_cons.mp hi with rfl | hi
        · have hnotin : i ∉ is := fun hi ↦ lt_irrefl i (hlt i hi)
          rw [hsame i hnotin, Function.update_self]
          exact hloaded
        · exact hok hrok i hi
      · rw [List.mem_cons, not_or] at hi
        rw [hsame i hi.2, Function.update_of_ne hi.1]

/-- Only a complete header of the right kind gets as far as the variants. -/
theorem loadFontFile_eq (font : ZmFont) (content : Bytes) :
    (HasHeader content ∧ loadFontFile font (some content) =
      loadVariants (fun i ↦ headerAt content i) (List.finRange kNumFontSizes) font
        ⟨content, 72, false⟩) ∨
    (¬ HasHeader content ∧ loadFontFile font (some content) = .ok (.kInvalidFile, font)) := by
  rw [loadFontFile]
  by_cases hcomplete : 72 ≤ content.length
  · have htake : (content.take 6).take 5 = content.take 5 := List.take_take
    rw [FontFileHeader.read_eq hcomplete]
    simp only [Bool.false_eq_true, if_false, htake]
    split_ifs with hkind
    · exact .inr ⟨fun h ↦ hkind.elim (absurd h.magic) (absurd h.version), rfl⟩
    · obtain ⟨hmagic, hversion⟩ := not_or.mp hkind
      exact .inl ⟨⟨hcomplete, not_not.mp hmagic, not_not.mp hversion⟩, rfl⟩
  · have hfail := mt FontFileHeader.complete_of_read hcomplete
    simp only [Bool.not_eq_false] at hfail
    refine .inr ⟨fun h ↦ hcomplete h.complete, ?_⟩
    simp only [hfail, if_true]

/-- A font file is read or refused, and what is read is within its limits, unless a variant has no
height: the length of its bitmap is then divided by it. -/
theorem loadFontFile_iff (font : ZmFont) (content : Bytes) :
    (∃ r font', loadFontFile font (some content) = .ok (r, font') ∧
      (r = .kOk ∨ r = .kInvalidFile) ∧ (r = .kOk → ∀ i : Fin kNumFontSizes,
        (font' i).charHeight ≤ kMaxCharHeight ∧ (font' i).charWidth ≤ kMaxCharWidth ∧
        (font' i).bitmap.length = (font' i).codepointCount.toNat * (font' i).charHeight.toNat ∧
        (font' i).codepointCount.toNat = (headerAt content i).numberOfCodePoints.toNat ∧
        ∀ idx, ∃ rows, (font' i).getCodepoint idx = some rows ∧
          rows.length = (font' i).charHeight.toNat)) ↔
      ¬ (HasHeader content ∧ ∃ i : Fin kNumFontSizes, (headerAt content i).charHeight = 0 ∧
        ∀ j ≤ i, (headerAt content j).tooLarge = false) := by
  have hreached : Reached (fun i ↦ headerAt content i) (List.finRange kNumFontSizes) ↔
      ∃ i : Fin kNumFontSizes, (headerAt content i).charHeight = 0 ∧
        ∀ j ≤ i, (headerAt content j).tooLarge = false := by
    simp [Reached]
  have hsorted := List.pairwise_lt_finRange kNumFontSizes
  rw [← hreached]
  rcases loadFontFile_eq font content with ⟨hheader, heq⟩ | ⟨hheader, heq⟩
  · rw [heq]
    constructor
    · rintro ⟨r, font', hok, -⟩ ⟨-, hzero⟩
      rw [loadVariants_reached hsorted hzero] at hok
      cases hok
    · intro hzero
      obtain ⟨r, font', hok, hr, hloaded, -⟩ := loadVariants_loaded hsorted
        (fun hreached ↦ hzero ⟨hheader, hreached⟩) font ⟨content, 72, false⟩
      refine ⟨r, font', hok, hr, fun hrok i ↦ ?_⟩
      have hv := hloaded hrok i (List.mem_finRange i)
      exact ⟨hv.charHeight_le, hv.charWidth_le, hv.bitmap, hv.codepointCount, hv.getCodepoint⟩
  · rw [heq]
    refine ⟨fun _ h ↦ hheader h.1, fun _ ↦ ⟨_, font, rfl, .inr rfl, ?_⟩⟩
    exact fun hok ↦ FontLoadError.noConfusion hok

/-- A header of the right kind, and nothing but zeros behind it. -/
theorem loadFontFile_zeros : loadFontFile (fun _ ↦ .empty)
    (some (requiredMagic ++ [0, 1, 0] ++ List.replicate 64 0)) = .error .divisionByZero := rfl

end Variants

end Font
end ZoneMinder
