import Mathlib.Tactic.IntervalCases
import ZoneMinder.Lib.Overwrite
import ZoneMinder.Mp4Sidx.Index

namespace ZoneMinder.Mp4Sidx

open Lib

/-- What write_leading_sidx reads before it builds a region, none where it stops there. -/
def readRecording (file : Bytes) (regionOffset regionSize : ℤ) :
    Option (VideoTrack × List Fragment) :=
  if regionOffset < 0 ∨ regionSize ≤ 0 then none
  else do
    let fileSize : ℤ := file.length
    let firstMoof := regionOffset + regionSize
    let moof ← readBox file firstMoof fileSize
    if moof.type ≠ fourCC 'm' 'o' 'o' 'f' then none
    else
      let track ← readVideoTrack file fileSize
      let fragments ← scanFragments file firstMoof (mediaEnd file fileSize) track
      return (track, fragments)

/-- What write_leading_sidx puts into the region, none where it leaves the file alone. -/
def sidxRegion (file : Bytes) (regionOffset regionSize : ℤ) : Option Bytes := do
  let (track, fragments) ← readRecording file regionOffset regionSize
  let region := buildSidxRegion track fragments regionSize
  if region = [] then none else return region

/-- The bytes write_leading_sidx writes, in order, each with where it goes: the body of the
region, then its first eight bytes. -/
def writeLeadingSidx (file : Bytes) (regionOffset regionSize : ℤ) : List (UInt8 × ℕ) :=
  match sidxRegion file regionOffset regionSize with
  | none => []
  | some region => (region.drop 8).zipIdx (regionOffset.toNat + 8) ++
      (region.take 8).zipIdx regionOffset.toNat

/-- What is in the file after a crash or a short write: the first `n` bytes are written. -/
def cutShort (file : Bytes) (regionOffset regionSize : ℤ) (n : ℕ) : Bytes :=
  written file ((writeLeadingSidx file regionOffset regionSize).take n)

def indexed (file : Bytes) (regionOffset regionSize : ℤ) : Bytes :=
  written file (writeLeadingSidx file regionOffset regionSize)

def topLevel (file : Bytes) : List Box × Bool := boxes file 0 file.length

/-- The finished file has padding and an index where the free box was, and is otherwise as
before. -/
def Finished (file : Bytes) (regionOffset regionSize : ℤ) : Prop :=
  ∃ pre free post ok references, topLevel file = (pre ++ free :: post, ok) ∧
    free.offset = regionOffset ∧ sidxBytes references ≤ regionSize ∧ topLevel (indexed file regionOffset regionSize) =
      (pre ++ (indexBoxes regionOffset regionSize references ++ post), ok)

/-- Wherever the writes stop, the file has the boxes from before or those of the finished
file, and none at the region that goes past the first moof. -/
def CrashSafe (file : Bytes) (regionOffset regionSize : ℤ) : Prop := ∀ n,
  (topLevel (cutShort file regionOffset regionSize n) = topLevel file ∨
    topLevel (cutShort file regionOffset regionSize n) =
      topLevel (indexed file regionOffset regionSize) ∧ Finished file regionOffset regionSize) ∧
  ∀ box ∈ (topLevel (cutShort file regionOffset regionSize n)).1, box.offset = regionOffset →
    box.endOffset ≤ regionOffset + regionSize

def changedBytes (old new : Bytes) : ℕ := (old.zip new).countP fun p ↦ p.1 ≠ p.2

/-- Where the walk over a file meets the free box of the region. -/
structure Reserved (file : Bytes) (offset size header : ℤ) (pre post : List Box) (ok : Bool) :
    Prop where
  before : Tiled (readBox file · file.length) Box.endOffset 0 pre offset
  free : readBox file offset file.length = some ⟨fourCC 'f' 'r' 'e' 'e', offset, size, header⟩
  after : boxes file (offset + size) file.length = (post, ok)

variable {file a b c x y old new region type : Bytes} {offset size header limit : ℤ} {pre post : List Box}
  {ok : Bool} {box : Box} {n : ℕ}

theorem reserved_of_topLevel
    (h : topLevel file = (pre ++ ⟨fourCC 'f' 'r' 'e' 'e', offset, size, header⟩ :: post, ok)) :
    Reserved file offset size header pre post ok := by
  obtain ⟨last, hbefore, hread, hafter⟩ := read_of_segments readBox_lt (by omega) h
  obtain rfl : offset = last := (readBox_spec hread).2.1
  exact ⟨hbefore, hread, hafter⟩

theorem mem_topLevel (h : box ∈ (topLevel file).1) :
    readBox file box.offset file.length = some box := by
  obtain ⟨before, after, hsplit⟩ := List.append_of_mem h
  have hwalk : topLevel file = (before ++ box :: after, (topLevel file).2) := Prod.ext hsplit rfl
  obtain ⟨last, -, hread, -⟩ := read_of_segments readBox_lt (by omega) hwalk
  rwa [(readBox_spec hread).2.1]

theorem tiled_append_left
    (h : Tiled (readBox (a ++ x) · (a ++ x).length) Box.endOffset 0 pre a.length)
    (hlen : x.length = y.length) :
    Tiled (readBox (a ++ y) · (a ++ y).length) Box.endOffset 0 pre a.length := by
  rw [List.length_append, ← hlen, ← List.length_append]
  exact h.congr readBox_lt fun p b hread hend ↦ readBox_append_left hread hend

theorem boxes_append_right (hlen : x.length = y.length) (h : x.length ≤ offset) :
    boxes (x ++ c) offset limit = boxes (y ++ c) offset limit :=
  segments_congr readBox_lt fun _ hp ↦ readBox_append_right hlen (h.trans hp)

theorem readBox_head (h : readBox (a ++ (old ++ x)) a.length limit = some box)
    (hlen : old.length = 8) : ∃ size header, boxSize (a ++ (old ++ x)) a.length limit old =
      some (size, header) ∧ header ≤ size ∧ box = ⟨old.drop 4, a.length, size, header⟩ := by
  obtain ⟨-, -, head, size, header, hhead, hsize, hle, -, rfl⟩ := readBox_eq_some.mp h
  have hread := readExact_append a old x
  rw [hlen, hhead] at hread
  obtain rfl := Option.some.inj hread
  exact ⟨size, header, hsize, hle, rfl⟩

theorem header_iff (h : readBox (a ++ (old ++ x)) a.length limit = some box)
    (hlen : old.length = 8) : box.header = 8 ↔ rb32 old 0 ≠ 1 := by
  obtain ⟨size, header, hsize, -, rfl⟩ := readBox_head h hlen
  unfold boxSize at hsize
  split at hsize
  · next heq =>
    split at hsize
    · contradiction
    · obtain ⟨large, -, hl⟩ := Option.map_eq_some_iff.mp hsize
      refine iff_of_false (fun h8 ↦ ?_) (fun hne ↦ hne heq)
      have hsnd := congrArg Prod.snd hl
      dsimp only at hsnd h8
      omega
  · next hne =>
    refine iff_of_true ?_ hne
    split at hsize
    · exact (congrArg Prod.snd (Option.some.inj hsize)).symm
    · exact (congrArg Prod.snd (Option.some.inj hsize)).symm

theorem readBox_header (h : readBox (a ++ (old ++ x)) a.length limit = some box)
    (hlen : old.length = 8) (hheader : box.header = 8) (hend : box.endOffset < limit) :
    ((rb32 old 0).toNat : ℤ) = box.size ∧ old.drop 4 = box.type := by
  have hne := (header_iff h hlen).mp hheader
  obtain ⟨size, header, hsize, -, rfl⟩ := readBox_head h hlen
  simp only [Box.endOffset] at hend
  unfold boxSize at hsize
  rw [if_neg hne] at hsize
  split at hsize
  · have hfit := congrArg Prod.fst (Option.some.inj hsize)
    dsimp only at hfit
    omega
  · exact ⟨congrArg Prod.fst (Option.some.inj hsize), rfl⟩

theorem wordOf_inj {p q r s p' q' r' s' : UInt8} (h : wordOf p q r s = wordOf p' q' r' s') :
    p = p' ∧ q = q' ∧ r = r' ∧ s = s' := by
  have hnat := congrArg UInt32.toNat h
  rw [wordOf_toNat, wordOf_toNat] at hnat
  simp only [← UInt8.toNat_inj]
  have hp := p.toNat_lt
  have hq := q.toNat_lt
  have hr := r.toNat_lt
  have hp' := p'.toNat_lt
  have hq' := q'.toNat_lt
  have hr' := r'.toNat_lt
  omega

theorem header_ext (hx : x.length = 8) (hy : y.length = 8) (hword : rb32 x 0 = rb32 y 0)
    (hdrop : x.drop 4 = y.drop 4) : x = y := by
  match x, y, hx, hy with
  | p :: q :: r :: s :: _, p' :: q' :: r' :: s' :: _, _, _ =>
    obtain ⟨rfl, rfl, rfl, rfl⟩ := wordOf_inj hword
    exact congrArg (p :: q :: r :: s :: ·) hdrop

theorem header_unique (hold : readBox (a ++ (old ++ x)) a.length limit = some box)
    (hnew : readBox (a ++ (new ++ y)) a.length limit = some box) (ho : old.length = 8)
    (hn : new.length = 8) (hheader : box.header = 8) (hend : box.endOffset < limit) : old = new := by
  obtain ⟨hsize, htype⟩ := readBox_header hold ho hheader hend
  obtain ⟨hsize', htype'⟩ := readBox_header hnew hn hheader hend
  refine header_ext ho hn (UInt32.toNat_inj.mp ?_) (htype.trans htype'.symm)
  omega

theorem readBox_same_header (h : readBox (a ++ (old ++ x)) a.length limit = some box)
    (hlen : old.length = 8) (hheader : box.header = 8) :
    readBox (a ++ (old ++ y)) a.length limit = some box := by
  have hne := (header_iff h hlen).mp hheader
  obtain ⟨hoffset, hlimit, head, size, header, hhead, hsize, hle, hfit, rfl⟩ := readBox_eq_some.mp h
  have hread := readExact_append a old x
  rw [hlen, hhead] at hread
  obtain rfl := Option.some.inj hread
  refine readBox_eq_some.mpr ⟨hoffset, hlimit, head, size, header, ?_, ?_, hle, hfit, rfl⟩
  · rw [← hlen, readExact_append]
  · unfold boxSize at hsize ⊢
    rwa [if_neg hne] at hsize ⊢

theorem readRecording_spec {track : VideoTrack} {fragments : List Fragment}
    (h : readRecording file offset size = some (track, fragments)) : 0 ≤ offset ∧
    offset + size + 8 ≤ file.length ∧ readVideoTrack file file.length = some track ∧
    scanFragments file (offset + size) (mediaEnd file file.length) track = some fragments := by
  unfold readRecording at h
  split at h
  · contradiction
  · next hguard =>
    obtain ⟨moof, hmoof, h⟩ := Option.bind_eq_some_iff.mp h
    split at h
    · contradiction
    · obtain ⟨track', htrack, h⟩ := Option.bind_eq_some_iff.mp h
      obtain ⟨fragments', hscan, h⟩ := Option.bind_eq_some_iff.mp h
      obtain ⟨rfl, rfl⟩ := Prod.mk.inj (Option.some.inj h)
      exact ⟨by omega, readBox_fits _ _ hmoof, htrack, hscan⟩

/-- A region is written exactly where the fragments make references. -/
theorem sidxRegion_eq_some : sidxRegion file offset size = some region ↔
    ∃ track fragments references, readRecording file offset size = some (track, fragments) ∧
      buildReferences track fragments size = some references ∧
      region = freeBox (size - sidxBytes references) ++
        sidxBox track (earliestTime fragments) references := by
  unfold sidxRegion
  constructor
  · intro h
    obtain ⟨⟨track, fragments⟩, hread, h⟩ := Option.bind_eq_some_iff.mp h
    dsimp only at h
    split at h
    · contradiction
    · next hne =>
      obtain rfl := Option.some.inj h
      cases hbuild : buildReferences track fragments size with
      | none => exact absurd (buildSidxRegion_none hbuild) hne
      | some references =>
        exact ⟨track, fragments, references, hread, hbuild, (buildSidxRegion_some hbuild).2⟩
  · rintro ⟨track, fragments, references, hread, hbuild, rfl⟩
    obtain ⟨-, hregion⟩ := buildSidxRegion_some hbuild
    rw [hread, Option.bind_eq_bind, Option.bind_some]
    dsimp only
    rw [hregion, if_neg]
    · rfl
    · intro hnil
      have hsidx := sidxBox_length track (earliestTime fragments) references
      rw [(List.append_eq_nil_iff.mp hnil).2, List.length_nil] at hsidx
      have hbytes : sidxBytes references = 40 + 12 * references.length := rfl
      omega

theorem sidxRegion_spec (h : sidxRegion file offset size = some region) : 0 ≤ offset ∧
    offset + size + 8 ≤ file.length ∧ (region.length : ℤ) = size ∧
    ∃ track earliest references, references.length ≤ 65535 ∧
      (size - sidxBytes references = 0 ∨ 8 ≤ size - sidxBytes references) ∧
      region = freeBox (size - sidxBytes references) ++ sidxBox track earliest references := by
  obtain ⟨track, fragments, references, hread, hbuild, rfl⟩ := sidxRegion_eq_some.mp h
  obtain ⟨h0, hfit, -, -⟩ := readRecording_spec hread
  obtain ⟨-, -, -, hlen⟩ := buildReferences_covers hbuild
  have hspec := maxReferences_spec size
  have hpad := (buildSidxRegion_some hbuild).1
  exact ⟨h0, hfit, region_length hpad, track, _, references, by omega, hpad, rfl⟩

/-- The index of a recording covers all of it, from the first moof to the end of the media. -/
theorem sidxRegion_indexes (h : sidxRegion file offset size = some region) (hlt : size < 2 ^ 32) :
    ∃ track fragments sidx, readVideoTrack file file.length = some track ∧
      parseRegion region = some sidx ∧ Indexes sidx track fragments (offset + size)
        (mediaEnd file file.length) (maxReferences size) := by
  obtain ⟨track, fragments, references, hread, hbuild, rfl⟩ := sidxRegion_eq_some.mp h
  obtain ⟨-, -, htrack, hscan⟩ := readRecording_spec hread
  obtain ⟨groups, hflat, hcovers, hlen⟩ := buildReferences_covers hbuild
  have hspec := maxReferences_spec size
  have hpad := (buildSidxRegion_some hbuild).1
  exact ⟨track, fragments, _, htrack, parseRegion_built hcovers (by omega) hlt hpad,
    indexes_of_covers hcovers hflat (scanFragments_tiles hscan).1 hlen⟩

/-- A file split around its region: the header and the body of what is there now. -/
structure Layout (file : Bytes) (offset : ℤ) (region a old b c : Bytes) : Prop where
  split : file = a ++ (old ++ (b ++ c))
  offset : (a.length : ℤ) = offset
  header : old.length = 8
  body : b.length + 8 = region.length

theorem exists_layout (h0 : 0 ≤ offset) (h8 : 8 ≤ region.length)
    (hfit : offset + region.length ≤ file.length) :
    ∃ a old b c, Layout file offset region a old b c := by
  refine ⟨file.take offset.toNat, (file.drop offset.toNat).take 8,
    ((file.drop offset.toNat).drop 8).take (region.length - 8),
    ((file.drop offset.toNat).drop 8).drop (region.length - 8), ?_, ?_, ?_, ?_⟩
  · rw [List.take_append_drop, List.take_append_drop, List.take_append_drop]
  all_goals
    simp only [List.length_take, List.length_drop]
    omega

theorem Layout.head_length (h : Layout file offset region a old b c) :
    old.length = (region.take 8).length := by
  have hheader := h.header
  have hbody := h.body
  rw [List.length_take]
  omega

theorem Layout.body_length (h : Layout file offset region a old b c) :
    b.length = (region.drop 8).length := by
  have hbody := h.body
  rw [List.length_drop]
  omega

theorem cutShort_eq (hregion : sidxRegion file offset size = some region)
    (h : Layout file offset region a old b c) (n : ℕ) : cutShort file offset size n =
      a ++ (torn old (region.take 8) (n - b.length) ++ (torn b (region.drop 8) n ++ c)) := by
  have hat : offset.toNat = a.length := by
    have hoffset := h.offset
    omega
  have hat8 : a.length + 8 = (a ++ old).length := by rw [List.length_append, h.header]
  rw [cutShort, writeLeadingSidx, hregion]
  dsimp only
  rw [List.take_append, written_append, List.length_zipIdx, ← h.body_length, hat, hat8, h.split,
    ← List.append_assoc, written_take h.body_length, List.append_assoc, written_take h.head_length]

theorem indexed_eq (hregion : sidxRegion file offset size = some region)
    (h : Layout file offset region a old b c) : indexed file offset size = a ++ (region ++ c) := by
  have hcut := cutShort_eq hregion h (b.length + 8)
  have hheader := h.header
  have hbody := h.body
  have hbody' := h.body_length
  have hhead' := h.head_length
  rw [Nat.add_sub_cancel_left, torn_all hhead' (by omega), torn_all hbody' (by omega),
    ← List.append_assoc (region.take 8), List.take_append_drop] at hcut
  rw [indexed, ← hcut, cutShort, List.take_of_length_le]
  rw [writeLeadingSidx, hregion]
  simp only [List.length_append, List.length_zipIdx]
  omega

theorem Layout.refilled_length (h : Layout file offset region a old b c)
    (hy : y.length = region.length) : (a ++ (y ++ c)).length = file.length := by
  have hheader := h.header
  have hbody := h.body
  rw [h.split]
  simp only [List.length_append]
  omega

theorem topLevel_refilled {bs : List Box} (h : Layout file offset region a old b c)
    (hres : Reserved file offset region.length header pre post ok) (hy : y.length = region.length)
    (hmid : Tiled (readBox (a ++ (y ++ c)) · file.length) Box.endOffset offset bs
      (offset + region.length)) :
    topLevel (a ++ (y ++ c)) = (pre ++ (bs ++ post), ok) := by
  have hheader := h.header
  have hbody := h.body
  have hoffset := h.offset
  have hlen := h.refilled_length hy
  have hbefore := hres.before
  rw [← hoffset, h.split] at hbefore
  have hrest := @tiled_append_left a (old ++ (b ++ c)) (y ++ c) pre hbefore
    (by simp only [List.length_append]; omega)
  rw [hlen, hoffset] at hrest
  have hafter : boxes (a ++ (y ++ c)) (offset + region.length) file.length = (post, ok) := by
    have hcongr := @boxes_append_right c (a ++ y) (a ++ (old ++ b)) (offset + region.length)
      file.length (by simp only [List.length_append]; omega)
      (by simp only [List.length_append, Nat.cast_add]; omega)
    simp only [List.append_assoc] at hcongr
    rw [hcongr, ← h.split]
    exact hres.after
  rw [topLevel, hlen, boxes, segments_of_tiled readBox_lt (by omega) readBox_fits (hrest.trans hmid)]
  rw [show segments (readBox (a ++ (y ++ c)) · file.length) Box.endOffset 8 file.length
    (offset + region.length) = (post, ok) from hafter, List.append_assoc]

theorem rb64_toNat (p : Bytes) : (rb64 p 0).toNat =
    (byteAt p 7).toNat + 256 * (byteAt p 6).toNat + 65536 * (byteAt p 5).toNat +
      16777216 * (byteAt p 4).toNat +
    4294967296 * ((byteAt p 3).toNat + 256 * (byteAt p 2).toNat + 65536 * (byteAt p 1).toNat +
      16777216 * (byteAt p 0).toNat) := by
  rw [rb64, dwordOf_toNat, rb32, rb32, wordOf_toNat, wordOf_toNat]
  norm_num

theorem toNat_of_toInt64 {v : UInt64} (h : v.toInt64.toInt = size) (h0 : 0 ≤ size) :
    (v.toNat : ℤ) = size := by
  have hcond : v.toInt64.toInt =
      if 2 * v.toNat < 2 ^ 64 then (v.toNat : ℤ) else v.toNat - (2 ^ 64 : ℕ) :=
    BitVec.toInt_eq_toNat_cond v.toBitVec
  have hv := v.toNat_lt
  rw [hcond] at h
  split at h
  · exact h
  · omega

theorem drop_freeBox {padding : ℤ} (hpad : 8 ≤ padding) (y : Bytes) :
    (freeBox padding ++ y).drop 8 = List.replicate (padding.toNat - 8) 0 ++ y := by
  rw [freeBox, if_pos (by omega)]
  rfl

/-- The body of a region does not begin with the region's size as a 64-bit number. -/
theorem large_ne {padding earliest : ℤ} {track : VideoTrack} {references : List Reference}
    (hpad : padding = 0 ∨ 8 ≤ padding) (hlen : references.length ≤ 65535) :
    ((rb64 (((freeBox padding ++ sidxBox track earliest references).drop 8).take 8) 0).toNat : ℤ) ≠
      padding + sidxBytes references := by
  have hbytes : sidxBytes references = 40 + 12 * references.length := rfl
  have hnat := sidxBytes_toNat hlen
  rw [rb64_toNat]
  rcases hpad with rfl | hpad
  · -- the version of the sidx box comes first
    have hversion : byteAt (((freeBox 0 ++ sidxBox track earliest references).drop 8).take 8) 0 = 1 :=
      rfl
    rw [hversion, UInt8.toNat_one]
    omega
  · rw [drop_freeBox hpad]
    by_cases hbig : 16 ≤ padding
    · have hzero : (List.replicate (padding.toNat - 8) 0 ++ sidxBox track earliest references).take 8 =
          List.replicate 8 0 := by
        rw [List.take_append_of_le_length (by rw [List.length_replicate]; omega), List.take_replicate,
          Nat.min_eq_left (by omega)]
      rw [hzero]
      simp [byteAt]
      omega
    · -- some zeros, and then the size field and the type of the sidx box
      have hword := congrArg UInt32.toNat (wordOf_byteOf (UInt32.ofInt (sidxBytes references)))
      rw [wordOf_toNat] at hword
      rw [sidxBox, wb32]
      generalize byteOf (UInt32.ofInt (sidxBytes references)) 0 = s0 at *
      generalize byteOf (UInt32.ofInt (sidxBytes references)) 1 = s1 at *
      generalize byteOf (UInt32.ofInt (sidxBytes references)) 2 = s2 at *
      generalize byteOf (UInt32.ofInt (sidxBytes references)) 3 = s3 at *
      have h3 := s3.toNat_lt
      have h2 := s2.toNat_lt
      have h1 := s1.toNat_lt
      have h0 := s0.toNat_lt
      have hlt : padding < 16 := by omega
      interval_cases padding
      all_goals
        simp [byteAt, fourCC]
        omega

/-- A free box with 16 bytes of header does not survive the body of a region. -/
theorem header_of_body (hread : readBox (a ++ (old ++ (region.drop 8 ++ c))) a.length limit = some box)
    (hold : old.length = 8) (hlen : 16 ≤ region.length)
    (hne : ((rb64 ((region.drop 8).take 8) 0).toNat : ℤ) ≠ box.size) : box.header = 8 := by
  obtain ⟨size, header, hsize, hle, rfl⟩ := readBox_head hread hold
  have hlarge := readExact_append (a ++ old) ((region.drop 8).take 8) ((region.drop 8).drop 8 ++ c)
  have htake : ((region.drop 8).take 8).length = 8 := by
    rw [List.length_take, List.length_drop]
    omega
  rw [htake, ← List.append_assoc ((region.drop 8).take 8), List.take_append_drop, List.length_append,
    hold, List.append_assoc] at hlarge
  by_contra h8
  have hone : rb32 old 0 = 1 := by
    by_contra hneq
    exact h8 ((header_iff hread hold).mpr hneq)
  unfold boxSize at hsize
  rw [if_pos hone] at hsize
  split at hsize
  · contradiction
  · rw [show (a.length : ℤ) + 8 = (a.length + 8 : ℕ) from rfl, hlarge, Option.map_some] at hsize
    obtain ⟨hint, hheader⟩ := Prod.mk.inj (Option.some.inj hsize)
    have hpos : 0 ≤ size := by omega
    exact hne (toNat_of_toInt64 hint hpos)

theorem indexBoxes_head {references : List Reference} (h : sidxBytes references ≤ size) :
    ∃ first rest, indexBoxes offset size references = first :: rest ∧ first.header = 8 ∧
      first.offset = offset := by
  unfold indexBoxes
  dsimp only
  split
  · exact ⟨_, _, rfl, rfl, rfl⟩
  · refine ⟨_, _, rfl, rfl, ?_⟩
    dsimp only
    omega

theorem refilled_end {first : Box} {rest : List Box} (h : Layout file offset region a old b c)
    (hy : y.length = region.length)
    (hmid : Tiled (readBox (a ++ (y ++ c)) · file.length) Box.endOffset offset (first :: rest)
      (offset + region.length)) :
    ∀ box ∈ (topLevel (a ++ (y ++ c))).1, box.offset = offset →
      box.endOffset ≤ offset + region.length := by
  intro box hbox hoffset
  have hread := mem_topLevel hbox
  rw [h.refilled_length hy, hoffset] at hread
  obtain rfl := Option.some.inj (hread.symm.trans hmid.1)
  exact hmid.2.le readBox_lt

theorem tiled_old (h : Layout file offset region a old b c)
    (hres : Reserved file offset region.length 8 pre post ok) :
    Tiled (readBox (a ++ (old ++ (y ++ c))) · file.length) Box.endOffset offset
      [⟨fourCC 'f' 'r' 'e' 'e', offset, region.length, 8⟩] (offset + region.length) := by
  have hfree := hres.free
  rw [h.split, ← h.offset] at hfree
  have hread := @readBox_same_header a (b ++ c) (y ++ c) old _ _ hfree h.header rfl
  rw [← h.split, h.offset] at hread
  exact ⟨hread, rfl⟩

theorem tiled_indexed (hregion : sidxRegion file offset size = some region)
    (h : Layout file offset region a old b c) (hlt : size < 2 ^ 32) :
    ∃ references, sidxBytes references ≤ size ∧
      Tiled (readBox (a ++ (region ++ c)) · file.length) Box.endOffset offset
        (indexBoxes offset size references) (offset + size) := by
  obtain ⟨-, hfit, hlen, track, earliest, references, hcount, hpad, hbuild⟩ := sidxRegion_spec hregion
  have htiled := @region_tiled a c file.length size earliest track references hcount hlt hpad
    (by have hoffset := h.offset; omega)
  rw [← List.append_assoc (freeBox _), ← hbuild, h.offset] at htiled
  exact ⟨references, by omega, htiled⟩

theorem topLevel_old (h : Layout file offset region a old b c)
    (hres : Reserved file offset region.length 8 pre post ok) (hy : y.length = b.length) :
    topLevel (a ++ (old ++ (y ++ c))) =
        (pre ++ (⟨fourCC 'f' 'r' 'e' 'e', offset, region.length, 8⟩ :: post), ok) ∧
      ∀ box ∈ (topLevel (a ++ (old ++ (y ++ c)))).1, box.offset = offset →
        box.endOffset ≤ offset + region.length := by
  have hheader := h.header
  have hbody := h.body
  have hlen : (old ++ y).length = region.length := by rw [List.length_append]; omega
  have htiled := @tiled_old file a b c y old region offset pre post ok h hres
  rw [← List.append_assoc old] at htiled ⊢
  exact ⟨topLevel_refilled h hres hlen htiled, refilled_end h hlen htiled⟩

theorem read_old (h : Layout file offset region a old b c)
    (hres : Reserved file offset size header pre post ok) :
    readBox (a ++ (old ++ (b ++ c))) a.length file.length =
      some ⟨fourCC 'f' 'r' 'e' 'e', a.length, size, header⟩ := by
  rw [← h.split, h.offset]
  exact hres.free

theorem safe_of_none (hres : Reserved file offset size header pre post ok)
    (hregion : sidxRegion file offset size = none) : CrashSafe file offset size := by
  intro n
  have hcut : cutShort file offset size n = file := by
    rw [cutShort, writeLeadingSidx, hregion, List.take_nil]
    rfl
  rw [hcut]
  refine ⟨.inl rfl, fun box hbox hoffset ↦ ?_⟩
  have hread := mem_topLevel hbox
  rw [hoffset, hres.free] at hread
  rw [← Option.some.inj hread]
  exact le_rfl

/-- While no byte or one byte of the header changes, the header is the old or the new one. -/
theorem safe_of_one (hres : Reserved file offset size 8 pre post ok)
    (hregion : sidxRegion file offset size = some region)
    (h : Layout file offset region a old b c) (hone : changedBytes old (region.take 8) ≤ 1) :
    CrashSafe file offset size := by
  obtain ⟨-, hfit, rfl, -⟩ := sidxRegion_spec hregion
  have hfile := (topLevel_old h hres rfl).1
  rw [← h.split] at hfile
  have hbody := h.body_length
  intro n
  rw [cutShort_eq hregion h]
  have htorn : torn old (region.take 8) (n - b.length) = old ∨
      b.length ≤ n ∧ torn old (region.take 8) (n - b.length) = region.take 8 := by
    rcases Nat.le_total n b.length with hn | hn
    · rw [Nat.sub_eq_zero_of_le hn]
      exact .inl rfl
    · exact ((torn_iff h.head_length).mpr hone (n - b.length)).imp id fun he ↦ ⟨hn, he⟩
  rcases htorn with hold | ⟨hn, hnew⟩
  · rw [hold]
    obtain ⟨hwalk, hend⟩ := topLevel_old h hres (torn_length hbody n)
    exact ⟨.inl (hwalk.trans hfile.symm), hend⟩
  · have hcut : a ++ (region.take 8 ++ (torn b (region.drop 8) n ++ c)) = a ++ (region ++ c) := by
      rw [torn_all hbody (by omega), ← List.append_assoc (region.take 8), List.take_append_drop]
    have hlt : (region.length : ℤ) < 2 ^ 32 := by
      have hoffset := h.offset
      have hsize := (readBox_header (read_old h hres) h.header rfl
        (by simp only [Box.endOffset]; omega)).1
      have hword := (rb32 old 0).toNat_lt
      dsimp only at hsize
      omega
    obtain ⟨references, hle, htiled⟩ := tiled_indexed hregion h hlt
    have hwalk := topLevel_refilled h hres rfl htiled
    obtain ⟨first, rest, hboxes, -⟩ := @indexBoxes_head offset _ _ hle
    rw [hnew, hcut]
    refine ⟨.inr ⟨?_, pre, _, post, ok, references, hfile, rfl, hle, ?_⟩, ?_⟩
    · rw [indexed_eq hregion h]
    · rw [indexed_eq hregion h, hwalk]
    · rw [hboxes] at htiled
      exact refilled_end h rfl htiled

theorem box_of_safe
    (h : topLevel file = (pre ++ ⟨fourCC 'f' 'r' 'e' 'e', offset, size, header⟩ :: post, ok))
    (hsafe : CrashSafe file offset size) (n : ℕ) :
    ∃ box, readBox (cutShort file offset size n) offset file.length = some box ∧
      box.endOffset ≤ offset + size ∧ (box = ⟨fourCC 'f' 'r' 'e' 'e', offset, size, header⟩ ∨
        box.header = 8 ∧ readBox (indexed file offset size) offset file.length = some box) := by
  have hread {t : Bytes} {box : Box} (hlen : t.length = file.length) (hmem : box ∈ (topLevel t).1)
      (hoffset : box.offset = offset) : readBox t offset file.length = some box := by
    rw [← hlen, ← hoffset]
    exact mem_topLevel hmem
  obtain ⟨hwalk | ⟨hwalk, pre', _, post', ok', references, -, -, hle, hfinished⟩, hend⟩ := hsafe n
  · have hmem : ⟨fourCC 'f' 'r' 'e' 'e', offset, size, header⟩ ∈
        (topLevel (cutShort file offset size n)).1 := by
      rw [hwalk, h]
      exact List.mem_append_right pre List.mem_cons_self
    exact ⟨_, hread written_length hmem rfl, hend _ hmem rfl, .inl rfl⟩
  · obtain ⟨first, rest, hboxes, hheader, hoffset⟩ := @indexBoxes_head offset _ _ hle
    have hmem : first ∈ (topLevel (indexed file offset size)).1 := by
      rw [hfinished, hboxes]
      exact List.mem_append_right pre' List.mem_cons_self
    have hmem' : first ∈ (topLevel (cutShort file offset size n)).1 := hwalk ▸ hmem
    exact ⟨first, hread written_length hmem' hoffset, hend _ hmem' hoffset,
      .inr ⟨hheader, hread written_length hmem hoffset⟩⟩

theorem one_of_safe
    (hwalk : topLevel file = (pre ++ ⟨fourCC 'f' 'r' 'e' 'e', offset, size, header⟩ :: post, ok))
    (hregion : sidxRegion file offset size = some region)
    (h : Layout file offset region a old b c) (hsafe : CrashSafe file offset size) :
    header = 8 ∧ changedBytes old (region.take 8) ≤ 1 := by
  have hfree := read_old h (reserved_of_topLevel hwalk)
  obtain ⟨-, hfit, rfl, track, earliest, references, hcount, hpad, hbuild⟩ := sidxRegion_spec hregion
  have hbytes : sidxBytes references = 40 + 12 * references.length := rfl
  have hcut (j : ℕ) : cutShort file offset region.length (b.length + j) =
      a ++ (torn old (region.take 8) j ++ (region.drop 8 ++ c)) := by
    rw [cutShort_eq hregion h, Nat.add_sub_cancel_left,
      torn_all h.body_length (h.body_length ▸ Nat.le_add_right _ j)]
  have h8 : header = 8 := by
    obtain ⟨box, hread, -, rfl | ⟨hheader, -⟩⟩ := box_of_safe hwalk hsafe (b.length + 0)
    · rw [hcut, torn_zero, ← h.offset] at hread
      refine header_of_body hread h.header (by omega) ?_
      have hne := @large_ne _ earliest track references hpad hcount
      rw [← hbuild, Int.sub_add_cancel] at hne
      exact hne
    · rw [hcut, torn_zero, ← h.offset] at hread
      exact (header_iff hfree h.header).mpr ((header_iff hread h.header).mp hheader)
  subst h8
  refine ⟨rfl, (torn_iff h.head_length).mp fun j ↦ ?_⟩
  have htorn : (torn old (region.take 8) j).length = 8 := (torn_length h.head_length j).trans h.header
  have hnew : (region.take 8).length = 8 := h.head_length.symm.trans h.header
  obtain ⟨box, hread, hend, rfl | ⟨hheader, hindexed⟩⟩ := box_of_safe hwalk hsafe (b.length + j)
  · rw [hcut, ← h.offset] at hread
    exact .inl (header_unique hread hfree htorn h.header rfl (by rw [h.offset]; omega))
  · rw [hcut, ← h.offset] at hread
    have hsplit : a ++ (region ++ c) = a ++ (region.take 8 ++ (region.drop 8 ++ c)) := by
      rw [← List.append_assoc (region.take 8), List.take_append_drop]
    rw [indexed_eq hregion h, hsplit, ← h.offset] at hindexed
    exact .inr (header_unique hread hindexed htorn hnew hheader (by omega))

theorem changedBytes_wb32 (v w : UInt32) (x y : Bytes) : changedBytes (wb32 v ++ x) (wb32 w ++ y) =
    changedBytes (wb32 v) (wb32 w) + changedBytes x y := by
  have hlen : (wb32 v).length = (wb32 w).length := rfl
  rw [changedBytes, List.zip_append hlen, List.countP_append]
  rfl

@[simp] theorem changedBytes_self (x : Bytes) : changedBytes x x = 0 :=
  (countP_zip_eq_zero rfl).mpr rfl

/-- The header of a free box that ends before the limit. -/
theorem free_header (h : readBox (a ++ (old ++ x)) a.length limit =
      some ⟨fourCC 'f' 'r' 'e' 'e', a.length, size, 8⟩)
    (hlen : old.length = 8) (hend : a.length + size < limit) :
    old = wb32 (UInt32.ofInt size) ++ fourCC 'f' 'r' 'e' 'e' := by
  obtain ⟨hword, htype⟩ := readBox_header h hlen rfl hend
  have hlt := (rb32 old 0).toNat_lt
  dsimp only at hword
  refine header_ext hlen rfl ?_ htype
  rw [rb32_wb32, ← UInt32.toNat_inj, toNat_ofInt32 (by omega) (by omega)]
  omega

/-- Padding keeps the type of the free box, and without padding four bytes of it change. -/
theorem changedBytes_region {track : VideoTrack} {earliest : ℤ} {references : List Reference}
    (hpad : size - sidxBytes references = 0 ∨ 8 ≤ size - sidxBytes references) :
    changedBytes (wb32 (UInt32.ofInt size) ++ fourCC 'f' 'r' 'e' 'e')
        ((freeBox (size - sidxBytes references) ++ sidxBox track earliest references).take 8) ≤ 1 ↔
      sidxBytes references < size ∧ changedBytes (wb32 (UInt32.ofInt size))
        (wb32 (UInt32.ofInt (size - sidxBytes references))) ≤ 1 := by
  rcases hpad with hzero | hpad
  · refine iff_of_false (fun hone ↦ ?_) fun ⟨hlt, _⟩ ↦ by omega
    have htake : (freeBox (size - sidxBytes references) ++ sidxBox track earliest references).take 8 =
        wb32 (UInt32.ofInt (sidxBytes references)) ++ fourCC 's' 'i' 'd' 'x' := by
      rw [hzero]
      rfl
    have htypes : changedBytes (fourCC 'f' 'r' 'e' 'e') (fourCC 's' 'i' 'd' 'x') = 4 := by decide
    rw [htake, changedBytes_wb32, htypes] at hone
    omega
  · have htake : (freeBox (size - sidxBytes references) ++ sidxBox track earliest references).take 8 =
        wb32 (UInt32.ofInt (size - sidxBytes references)) ++ fourCC 'f' 'r' 'e' 'e' := by
      rw [freeBox, if_pos (by omega)]
      rfl
    rw [htake, changedBytes_wb32, changedBytes_self, Nat.add_zero]
    exact (and_iff_right (by omega)).symm

/-- A write that is cut short is harmless exactly if the region is padded and the size of the
padding is that of the region with at most one other byte. -/
theorem crash_safe_iff
    (h : topLevel file = (pre ++ ⟨fourCC 'f' 'r' 'e' 'e', offset, size, header⟩ :: post, ok)) :
    CrashSafe file offset size ↔ ∀ track fragments references,
      readRecording file offset size = some (track, fragments) →
      buildReferences track fragments size = some references →
      header = 8 ∧ sidxBytes references < size ∧ changedBytes (wb32 (UInt32.ofInt size))
        (wb32 (UInt32.ofInt (size - sidxBytes references))) ≤ 1 := by
  have hres := reserved_of_topLevel h
  cases hregion : sidxRegion file offset size with
  | none =>
    refine iff_of_true (safe_of_none hres hregion) fun track fragments references hread hbuild ↦ ?_
    have hsome := sidxRegion_eq_some.mpr ⟨track, fragments, references, hread, hbuild, rfl⟩
    rw [hregion] at hsome
    contradiction
  | some region =>
    obtain ⟨track, fragments, references, hread, hbuild, hshape⟩ := sidxRegion_eq_some.mp hregion
    obtain ⟨h0, hfit, hlen, -⟩ := sidxRegion_spec hregion
    obtain ⟨hpad, -⟩ := buildSidxRegion_some hbuild
    have hbytes : sidxBytes references = 40 + 12 * references.length := rfl
    obtain ⟨a, old, b, c, hl⟩ := @exists_layout file region offset h0 (by omega) (by omega)
    have hchanged (h8 : header = 8) : changedBytes old (region.take 8) ≤ 1 ↔
        sidxBytes references < size ∧ changedBytes (wb32 (UInt32.ofInt size))
          (wb32 (UInt32.ofInt (size - sidxBytes references))) ≤ 1 := by
      subst h8
      have hoffset := hl.offset
      rw [free_header (read_old hl hres) hl.header (by omega), hshape]
      exact changedBytes_region hpad
    constructor
    · intro hsafe track' fragments' references' hread' hbuild'
      obtain ⟨rfl, rfl⟩ := Prod.mk.inj (Option.some.inj (hread.symm.trans hread'))
      obtain rfl := Option.some.inj (hbuild.symm.trans hbuild')
      obtain ⟨h8, hone⟩ := one_of_safe h hregion hl hsafe
      exact ⟨h8, (hchanged h8).mp hone⟩
    · intro hall
      obtain ⟨h8, hone⟩ := hall track fragments references hread hbuild
      have hheader := (hchanged h8).mpr hone
      subst h8
      exact safe_of_one hres hregion hl hheader

def makeBox (type body : Bytes) : Bytes := wb32 (UInt32.ofNat (8 + body.length)) ++ (type ++ body)

/-- A recording of one fragment behind a region of `reserve` bytes. -/
def recording (reserve : ℕ) : Bytes :=
  makeBox (fourCC 'm' 'o' 'o' 'v') (makeBox (fourCC 't' 'r' 'a' 'k') (
    makeBox (fourCC 't' 'k' 'h' 'd') (List.replicate 12 0 ++ wb32 1) ++
    makeBox (fourCC 'm' 'd' 'i' 'a') (
      makeBox (fourCC 'h' 'd' 'l' 'r') (List.replicate 8 0 ++ fourCC 'v' 'i' 'd' 'e') ++
      makeBox (fourCC 'm' 'd' 'h' 'd') (List.replicate 12 0 ++ wb32 90000)))) ++
  makeBox (fourCC 'f' 'r' 'e' 'e') (List.replicate (reserve - 8) 0) ++
  makeBox (fourCC 'm' 'o' 'o' 'f') (makeBox (fourCC 't' 'r' 'a' 'f') (
    makeBox (fourCC 't' 'f' 'h' 'd') (wb32 8 ++ wb32 1 ++ wb32 3000) ++
    makeBox (fourCC 't' 'f' 'd' 't') (List.replicate 8 0) ++
    makeBox (fourCC 't' 'r' 'u' 'n') (wb32 0 ++ wb32 1))) ++
  makeBox (fourCC 'm' 'd' 'a' 't') []

/-- From 64 bytes to padding of 12, one byte of the size changes. -/
theorem crash_safe_iff_small : CrashSafe (recording 64) 92 64 := by
  have hwalk : topLevel (recording 64) = ([⟨fourCC 'm' 'o' 'o' 'v', 0, 92, 8⟩] ++
      ⟨fourCC 'f' 'r' 'e' 'e', 92, 64, 8⟩ :: [⟨fourCC 'm' 'o' 'o' 'f', 156, 68, 8⟩,
        ⟨fourCC 'm' 'd' 'a' 't', 224, 8, 8⟩], true) := by decide +kernel
  refine (crash_safe_iff hwalk).mpr fun track fragments references hread hbuild ↦ ⟨rfl, ?_⟩
  have hone : ((readRecording (recording 64) 92 64).bind fun r ↦ buildReferences r.1 r.2 64).all
      (fun references ↦ sidxBytes references < 64 ∧ changedBytes (wb32 (UInt32.ofInt 64))
        (wb32 (UInt32.ofInt (64 - sidxBytes references))) ≤ 1) = true := by decide +kernel
  rw [hread, Option.bind_some, hbuild] at hone
  exact of_decide_eq_true hone

/-- From 256 bytes to padding of 204 two of them do. After three of the four bytes the size is
0, and the free box goes to the end of the file. -/
theorem torn_header :
    (⟨fourCC 'f' 'r' 'e' 'e', 92, 256, 8⟩ : Box) ∈ (topLevel (recording 256)).1 ∧
    (⟨fourCC 'f' 'r' 'e' 'e', 92, (recording 256).length - 92, 8⟩ : Box) ∈
      (topLevel (cutShort (recording 256) 92 256 251)).1 ∧
    ¬ CrashSafe (recording 256) 92 256 := by
  have htorn : (⟨fourCC 'f' 'r' 'e' 'e', 92, 332, 8⟩ : Box) ∈
      (topLevel (cutShort (recording 256) 92 256 251)).1 := by decide +kernel
  have hlen : ((recording 256).length : ℤ) - 92 = 332 := by decide +kernel
  refine ⟨by decide +kernel, hlen ▸ htorn, fun hsafe ↦ ?_⟩
  have hend := (hsafe 251).2 _ htorn rfl
  simp [Box.endOffset] at hend

end ZoneMinder.Mp4Sidx
