import ZoneMinder.Mp4Sidx.References

namespace ZoneMinder.Mp4Sidx

open Lib

section

/-- An entry of a segment index, 14496-12 8.16.3: the first word is a type bit and a size. -/
structure SidxReference where
  referenceType : Bool
  size : ℕ
  duration : ℕ
  sap : UInt32
  deriving DecidableEq

structure Sidx where
  version : ℕ
  flags : ℕ
  referenceId : UInt32
  timescale : UInt32
  earliest : UInt64
  firstOffset : UInt64
  references : List SidxReference
  deriving DecidableEq

def takeWord : Bytes → Option (UInt32 × Bytes)
  | a :: b :: c :: d :: rest => some (wordOf d c b a, rest)
  | _ => none

def takeDouble (bytes : Bytes) : Option (UInt64 × Bytes) := do
  let (high, bytes) ← takeWord bytes
  let (low, bytes) ← takeWord bytes
  return (dwordOf low high, bytes)

def takeHalf : Bytes → Option (ℕ × Bytes)
  | a :: b :: rest => some (a.toNat * 256 + b.toNat, rest)
  | _ => none

def parseReferences : ℕ → Bytes → Option (List SidxReference)
  | 0, [] => some []
  | 0, _ :: _ => none
  | n + 1, bytes => do
    let (size, bytes) ← takeWord bytes
    let (duration, bytes) ← takeWord bytes
    let (sap, bytes) ← takeWord bytes
    let rest ← parseReferences n bytes
    return ⟨2 ^ 31 ≤ size.toNat, size.toNat % 2 ^ 31, duration.toNat, sap⟩ :: rest

/-- The body of a version 1 sidx box. -/
def parseSidx (bytes : Bytes) : Option Sidx := do
  let (versionFlags, bytes) ← takeWord bytes
  let (referenceId, bytes) ← takeWord bytes
  let (timescale, bytes) ← takeWord bytes
  let (earliest, bytes) ← takeDouble bytes
  let (firstOffset, bytes) ← takeDouble bytes
  let (_, bytes) ← takeHalf bytes
  let (count, bytes) ← takeHalf bytes
  let references ← parseReferences count bytes
  if versionFlags.toNat / 2 ^ 24 = 1 then
    return ⟨1, versionFlags.toNat % 2 ^ 24, referenceId, timescale, earliest, firstOffset, references⟩
  else none

/-- The sidx box of a region that has nothing but an optional free box before it. -/
def leadingSidx : List Box × Bool → Option Box
  | ([sidx], true) => some sidx
  | ([free, sidx], true) => if free.type = fourCC 'f' 'r' 'e' 'e' then some sidx else none
  | _ => none

/-- A region that is an optional free box and a sidx box up to its last byte. -/
def parseRegion (region : Bytes) : Option Sidx :=
  (leadingSidx (boxes region 0 region.length)).bind fun sidx ↦
    if sidx.type = fourCC 's' 'i' 'd' 'x' ∧ sidx.endOffset = region.length then
      parseSidx (region.drop sidx.body.toNat)
    else none

def indexBoxes (offset reserve : ℤ) (references : List Reference) : List Box :=
  let padding := reserve - sidxBytes references
  (if 0 < padding then [⟨fourCC 'f' 'r' 'e' 'e', offset, padding, 8⟩] else []) ++
    [⟨fourCC 's' 'i' 'd' 'x', offset + padding, sidxBytes references, 8⟩]

def indexEntry (reference : Reference) : SidxReference where
  referenceType := false
  size := reference.size.toNat
  duration := reference.duration.toNat
  sap := if reference.startsWithSap then 0x90000000 else 0

variable {a c region : Bytes} {limit reserve padding earliest start stop : ℤ} {track : VideoTrack}
  {references : List Reference} {reference : Reference} {fragments : List Fragment}
  {groups : List (List (Fragment × ℤ))}

theorem toNat_ofInt32 {x : ℤ} (h : 0 ≤ x) (hlt : x < 2 ^ 32) : (UInt32.ofInt x).toNat = x.toNat := by
  have hmod : x % (2 ^ 32 : ℤ) = x := Int.emod_eq_of_lt h hlt
  rw [UInt32.ofInt]
  simp only [UInt32.toNat_ofNat', Int.reducePow] at hmod ⊢
  omega

@[simp] theorem takeWord_wb32 (v : UInt32) (l : Bytes) : takeWord (wb32 v ++ l) = some (v, l) :=
  congrArg (fun w ↦ some (w, l)) (wordOf_byteOf v)

@[simp] theorem takeDouble_wb64 (v : UInt64) (l : Bytes) : takeDouble (wb64 v ++ l) = some (v, l) := by
  simp [takeDouble, wb64]

@[simp] theorem takeHalf_wb16 (v : UInt16) (l : Bytes) : takeHalf (wb16 v ++ l) = some (v.toNat, l) := by
  have hv := v.toNat_lt
  have hbytes : (v >>> 8).toUInt8.toNat * 256 + v.toUInt8.toNat = v.toNat := by
    simp [Nat.shiftRight_eq_div_pow]
    omega
  exact congrArg (fun n ↦ some (n, l)) hbytes

theorem parseReferences_entries (h : List.Forall₂ Covers groups references) :
    parseReferences references.length (references.flatMap referenceEntry) =
      some (references.map indexEntry) := by
  induction h with
  | nil => rfl
  | @cons group reference groups references hcovers _ ih =>
    have hmax : maxReferencedSize = 2 ^ 31 - 1 := rfl
    have hsize := toNat_ofInt32 hcovers.size_pos.le (by have := hcovers.size_le; omega)
    have hduration := toNat_ofInt32 hcovers.duration_pos.le (by have := hcovers.duration_le; omega)
    have hlt : reference.size.toNat < 2 ^ 31 := by have := hcovers.size_le; omega
    simp only [List.flatMap_cons, List.length_cons, referenceEntry, List.append_assoc,
      parseReferences, takeWord_wb32, Option.bind_eq_bind, Option.bind_some, ih, List.map_cons,
      indexEntry, hsize, hduration, Nat.mod_eq_of_lt hlt, Nat.not_le.mpr hlt, decide_false]
    rfl

theorem entries_length (references : List Reference) :
    (references.flatMap referenceEntry).length = 12 * references.length := by
  induction references with
  | nil => rfl
  | cons reference references ih =>
    rw [List.flatMap_cons, List.length_append, ih, List.length_cons]
    have hentry : (referenceEntry reference).length = 12 := rfl
    omega

theorem sidxBox_length (track : VideoTrack) (earliest : ℤ) (references : List Reference) :
    ((sidxBox track earliest references).length : ℤ) = sidxBytes references := by
  have hlen : (sidxBox track earliest references).length =
      40 + (references.flatMap referenceEntry).length := by
    simp only [sidxBox, List.length_append, wb32_length, wb64_length, fourCC_length]
    simp only [wb16, List.length_cons, List.length_nil]
    omega
  rw [hlen, entries_length]
  simp [sidxBytes, sidxHeaderBytes, sidxReferenceBytes]

theorem freeBox_length (h : padding = 0 ∨ 8 ≤ padding) : ((freeBox padding).length : ℤ) = padding := by
  unfold freeBox
  split
  · simp only [List.length_append, wb32_length, fourCC_length, List.length_replicate]
    omega
  · simp only [List.length_nil]
    omega

theorem sidxBytes_toNat (h : references.length ≤ 65535) :
    ((UInt32.ofInt (sidxBytes references)).toNat : ℤ) = sidxBytes references := by
  have hbytes : sidxBytes references = 40 + 12 * references.length := rfl
  rw [toNat_ofInt32 (by omega) (by omega)]
  omega

theorem readBox_sidx (h : references.length ≤ 65535)
    (hlimit : a.length + sidxBytes references ≤ limit) :
    readBox (a ++ (sidxBox track earliest references ++ c)) a.length limit =
      some ⟨fourCC 's' 'i' 'd' 'x', a.length, sidxBytes references, 8⟩ := by
  have hbytes : sidxBytes references = 40 + 12 * references.length := rfl
  have hnat := sidxBytes_toNat h
  rw [sidxBox, List.append_assoc, List.append_assoc]
  refine (readBox_append rfl (by omega) (by omega)).trans ?_
  rw [hnat]

theorem readBox_free (h : 8 ≤ padding) (hlt : padding < 2 ^ 32) (hlimit : a.length + padding ≤ limit) :
    readBox (a ++ (freeBox padding ++ c)) a.length limit =
      some ⟨fourCC 'f' 'r' 'e' 'e', a.length, padding, 8⟩ := by
  have hnat : ((UInt32.ofInt padding).toNat : ℤ) = padding := by
    rw [toNat_ofInt32 (by omega) hlt]
    omega
  rw [freeBox, if_pos (by omega), List.append_assoc, List.append_assoc]
  refine (readBox_append rfl (by omega) (by omega)).trans ?_
  rw [hnat]

theorem region_tiled (hlen : references.length ≤ 65535) (hlt : reserve < 2 ^ 32)
    (hpad : reserve - sidxBytes references = 0 ∨ 8 ≤ reserve - sidxBytes references)
    (hlimit : a.length + reserve ≤ limit) :
    Tiled (readBox (a ++ (freeBox (reserve - sidxBytes references) ++
        (sidxBox track earliest references ++ c))) · limit) Box.endOffset a.length
      (indexBoxes a.length reserve references) (a.length + reserve) := by
  have hbytes : sidxBytes references = 40 + 12 * references.length := rfl
  have hfree := freeBox_length hpad
  have hsidx := @readBox_sidx (a ++ freeBox (reserve - sidxBytes references)) c limit earliest track
    references hlen (by rw [List.length_append]; omega)
  rw [List.append_assoc, List.length_append, Nat.cast_add, hfree] at hsidx
  unfold indexBoxes
  rcases hpad with hzero | hpos
  · rw [hzero] at hsidx ⊢
    rw [Int.add_zero] at hsidx
    refine ⟨by rwa [Int.add_zero], ?_⟩
    simp only [Tiled, Box.endOffset]
    omega
  · dsimp only
    rw [if_pos (by omega)]
    refine ⟨readBox_free hpos (by omega) (by omega), hsidx, ?_⟩
    simp only [Tiled, Box.endOffset]
    omega

theorem parseSidx_sidxBox (h : List.Forall₂ Covers groups references)
    (hlen : references.length ≤ 65535) :
    parseSidx ((sidxBox track earliest references).drop 8) = some ⟨1, 0, track.id, track.timescale,
      UInt64.ofInt earliest, 0, references.map indexEntry⟩ := by
  have hversion (l : Bytes) : takeWord ([1, 0, 0, 0] ++ l) = some (0x01000000, l) := rfl
  have hcount : (UInt16.ofNat references.length).toNat = references.length := by
    rw [UInt16.toNat_ofNat']
    exact Nat.mod_eq_of_lt (by omega)
  have hdrop : (sidxBox track earliest references).drop 8 = [1, 0, 0, 0] ++ (wb32 track.id ++
      (wb32 track.timescale ++ (wb64 (UInt64.ofInt earliest) ++ (wb64 0 ++ (wb16 0 ++
        (wb16 (UInt16.ofNat references.length) ++ references.flatMap referenceEntry)))))) := rfl
  rw [hdrop]
  simp only [parseSidx, hversion, takeWord_wb32, takeDouble_wb64, takeHalf_wb16, hcount,
    parseReferences_entries h, Option.bind_eq_bind, Option.bind_some]
  rfl

/-- What an index over the fragments of [start, stop) has to state. -/
structure Indexes (sidx : Sidx) (track : VideoTrack) (fragments : List Fragment) (start stop : ℤ)
    (limit : ℕ) : Prop where
  version : sidx.version = 1
  track : sidx.referenceId = track.id ∧ sidx.timescale = track.timescale
  complete : sidx.firstOffset = 0
  count : sidx.references.length ≤ limit
  runs : ∃ groups : List (List Fragment), groups.flatten = fragments ∧
    List.Forall₂ (fun group r ↦ group ≠ [] ∧ (r.size : ℤ) = (group.map (·.size)).sum)
      groups sidx.references
  moofs : ∀ before r after, sidx.references = before ++ r :: after →
    ∃ f ∈ fragments, f.offset = start + (before.map fun r ↦ (r.size : ℤ)).sum
  sizes : (sidx.references.map fun r ↦ (r.size : ℤ)).sum = stop - start
  bounded : ∀ r ∈ sidx.references, r.referenceType = false ∧ r.size < 2 ^ 31 ∧
    1 ≤ r.duration ∧ r.duration ≤ 2 ^ 32 - 1
  durations : ∀ first last, fragments.head? = some first → fragments.getLast? = some last →
    (sidx.references.map fun r ↦ (r.duration : ℤ)).sum =
      last.tfdt - first.tfdt + last.trunDuration

theorem sum_of_covers {f : Fragment × ℤ → ℤ} {g : Reference → ℤ}
    (hg : ∀ group reference, Covers group reference → g reference = (group.map f).sum)
    (h : List.Forall₂ Covers groups references) :
    (references.map g).sum = (groups.flatten.map f).sum := by
  induction h with
  | nil => rfl
  | cons hcovers _ ih =>
    rw [List.map_cons, List.sum_cons, List.flatten_cons, List.map_append, List.sum_append, ih,
      hg _ _ hcovers]

theorem exists_moof {runs : List (List Fragment)} {before after : List SidxReference}
    {r : SidxReference}
    (h : List.Forall₂ (fun group (r : SidxReference) ↦
      group ≠ [] ∧ (r.size : ℤ) = (group.map (·.size)).sum) runs (before ++ r :: after))
    (ht : Tiles start runs.flatten stop) :
    ∃ f ∈ runs.flatten, f.offset = start + (before.map fun r ↦ (r.size : ℤ)).sum := by
  induction before generalizing runs start with
  | nil =>
    cases h with
    | cons hr _ =>
      obtain ⟨f, group, rfl⟩ := List.exists_cons_of_ne_nil hr.1
      exact ⟨f, List.mem_cons_self, ht.1.trans (Int.add_zero start).symm⟩
  | cons b before ih =>
    cases h with
    | cons hb hrest =>
      obtain ⟨f, hf, hoffset⟩ := ih hrest ht.append
      refine ⟨f, List.mem_append_right _ hf, ?_⟩
      rw [hoffset, List.map_cons, List.sum_cons, hb.2, Int.add_assoc]

theorem indexes_of_covers (hcovers : List.Forall₂ Covers groups references)
    (hflat : groups.flatten = lasting fragments) (ht : Tiles start fragments stop)
    (hlen : references.length ≤ maxReferences reserve) :
    Indexes ⟨1, 0, track.id, track.timescale, UInt64.ofInt earliest, 0, references.map indexEntry⟩
      track fragments start stop (maxReferences reserve) := by
  have hsize (group reference) (h : Covers group reference) :
      ((indexEntry reference).size : ℤ) = (group.map (·.1.size)).sum :=
    (Int.toNat_of_nonneg h.size_pos.le).trans h.size
  have hduration (group reference) (h : Covers group reference) :
      ((indexEntry reference).duration : ℤ) = (group.map (·.2)).sum :=
    (Int.toNat_of_nonneg h.duration_pos.le).trans h.duration
  have hruns : (groups.map (·.map (·.1))).flatten = fragments := by
    rw [← List.map_flatten, hflat, lasting_fst]
  have hpaired : List.Forall₂ (fun group (r : SidxReference) ↦
      group ≠ [] ∧ (r.size : ℤ) = (group.map (·.size)).sum)
      (groups.map (·.map (·.1))) (references.map indexEntry) := by
    rw [List.forall₂_map_left_iff, List.forall₂_map_right_iff]
    refine hcovers.imp fun group reference h ↦ ⟨?_, ?_⟩
    · simpa using h.nonempty
    · rw [hsize group reference h, List.map_map]
      rfl
  refine ⟨rfl, ⟨rfl, rfl⟩, rfl, by rwa [List.length_map], ⟨_, hruns, hpaired⟩, ?_, ?_, ?_, ?_⟩
  · intro before r after hsplit
    rw [show references.map indexEntry = before ++ r :: after from hsplit] at hpaired
    obtain ⟨f, hf, hoffset⟩ := exists_moof hpaired (hruns ▸ ht)
    exact ⟨f, hruns ▸ hf, hoffset⟩
  · rw [List.map_map, ← ht.sum]
    refine (sum_of_covers hsize hcovers).trans ?_
    have hfst := congrArg (List.map (·.size)) (lasting_fst fragments)
    rw [List.map_map] at hfst
    rw [hflat]
    exact congrArg List.sum hfst
  · intro r hr
    obtain ⟨reference, hmem, rfl⟩ := List.mem_map.mp hr
    obtain ⟨group, -, h⟩ := exists_left_of_forall₂ hcovers hmem
    have hmax : maxReferencedSize = 2 ^ 31 - 1 := rfl
    have hle := h.size_le
    have hpos := h.duration_pos
    have hlast := h.duration_le
    refine ⟨rfl, ?_, ?_, ?_⟩
    all_goals
      simp only [indexEntry]
      omega
  · intro first last hfirst hlast
    rw [List.map_map]
    refine (sum_of_covers hduration hcovers).trans ?_
    rw [hflat]
    cases fragments with
    | nil => contradiction
    | cons f rest =>
      rw [lasting_sum]
      rw [List.getLast?_eq_some_getLast (List.cons_ne_nil f rest)] at hlast
      rw [Option.some.inj hlast, ← Option.some.inj hfirst]

theorem buildSidxRegion_none (h : buildReferences track fragments reserve = none) :
    buildSidxRegion track fragments reserve = [] := by
  rw [buildSidxRegion, h]

/-- Once there are references, the test of the padding never fails. -/
theorem buildSidxRegion_some (h : buildReferences track fragments reserve = some references) :
    (reserve - sidxBytes references = 0 ∨ 8 ≤ reserve - sidxBytes references) ∧
      buildSidxRegion track fragments reserve = freeBox (reserve - sidxBytes references) ++
        sidxBox track (earliestTime fragments) references := by
  obtain ⟨-, -, -, hlen⟩ := buildReferences_covers h
  have hpad := padding_fits (maxReferences_pos h) hlen
  refine ⟨hpad, ?_⟩
  rw [buildSidxRegion, h]
  exact if_neg (by omega)

theorem buildSidxRegion_cases (track : VideoTrack) (fragments : List Fragment) (reserve : ℤ) :
    buildSidxRegion track fragments reserve = [] ∨ ∃ references groups,
      groups.flatten = lasting fragments ∧ List.Forall₂ Covers groups references ∧
      references.length ≤ maxReferences reserve ∧
      (reserve - sidxBytes references = 0 ∨ 8 ≤ reserve - sidxBytes references) ∧
      buildSidxRegion track fragments reserve = freeBox (reserve - sidxBytes references) ++
        sidxBox track (earliestTime fragments) references := by
  cases hbuild : buildReferences track fragments reserve with
  | none => exact .inl (buildSidxRegion_none hbuild)
  | some references =>
    obtain ⟨groups, hflat, hcovers, hlen⟩ := buildReferences_covers hbuild
    obtain ⟨hpad, hregion⟩ := buildSidxRegion_some hbuild
    exact .inr ⟨references, groups, hflat, hcovers, hlen, hpad, hregion⟩

theorem region_length (hpad : reserve - sidxBytes references = 0 ∨ 8 ≤ reserve - sidxBytes references) :
    ((freeBox (reserve - sidxBytes references) ++ sidxBox track earliest references).length : ℤ) =
      reserve := by
  rw [List.length_append, Nat.cast_add, freeBox_length hpad, sidxBox_length]
  omega

theorem leadingSidx_indexBoxes (reserve : ℤ) (references : List Reference) :
    leadingSidx (indexBoxes 0 reserve references, true) = some ⟨fourCC 's' 'i' 'd' 'x',
      reserve - sidxBytes references, sidxBytes references, 8⟩ := by
  unfold indexBoxes
  dsimp only
  rw [Int.zero_add]
  split
  · simp [leadingSidx]
  · rfl

theorem boxes_region (hlen : references.length ≤ 65535) (hlt : reserve < 2 ^ 32)
    (hpad : reserve - sidxBytes references = 0 ∨ 8 ≤ reserve - sidxBytes references) :
    boxes (freeBox (reserve - sidxBytes references) ++ sidxBox track earliest references) 0 reserve =
      (indexBoxes 0 reserve references, true) := by
  have htiled := @region_tiled [] [] reserve reserve earliest track references hlen hlt hpad
    (Int.zero_add reserve).le
  rw [List.append_nil, List.nil_append, List.length_nil, Nat.cast_zero, Int.zero_add] at htiled
  rw [boxes, segments_of_tiled readBox_lt (by omega) readBox_fits htiled,
    segments_eq readBox_lt (by omega), if_neg (by omega), List.append_nil]

theorem parseRegion_built (hcovers : List.Forall₂ Covers groups references)
    (hlen : references.length ≤ 65535) (hlt : reserve < 2 ^ 32)
    (hpad : reserve - sidxBytes references = 0 ∨ 8 ≤ reserve - sidxBytes references) :
    parseRegion (freeBox (reserve - sidxBytes references) ++ sidxBox track earliest references) =
      some ⟨1, 0, track.id, track.timescale, UInt64.ofInt earliest, 0,
        references.map indexEntry⟩ := by
  have hbody : (reserve - sidxBytes references + 8).toNat =
      (freeBox (reserve - sidxBytes references)).length + 8 := by
    have hfree := freeBox_length hpad
    omega
  rw [parseRegion, region_length hpad, boxes_region hlen hlt hpad, leadingSidx_indexBoxes,
    Option.bind_some, if_pos ⟨rfl, Int.sub_add_cancel reserve (sidxBytes references)⟩, Box.body,
    hbody, ← List.drop_drop, List.drop_left]
  exact parseSidx_sidxBox hcovers hlen

/-- The index is exact, or there is none. -/
theorem region_exact (ht : Tiles start fragments stop) (hlt : reserve ≤ 2 ^ 31 - 1) :
    buildSidxRegion track fragments reserve = [] ∨
      ((buildSidxRegion track fragments reserve).length : ℤ) = reserve ∧
        ∃ sidx, parseRegion (buildSidxRegion track fragments reserve) = some sidx ∧
          Indexes sidx track fragments start stop (maxReferences reserve) := by
  rcases buildSidxRegion_cases track fragments reserve with
    hnone | ⟨references, groups, hflat, hcovers, hlen, hpad, hbuild⟩
  · exact .inl hnone
  · have hcount : references.length ≤ 65535 := by
      have hspec := maxReferences_spec reserve
      omega
    rw [hbuild]
    exact .inr ⟨region_length hpad, _, parseRegion_built hcovers hcount (by omega) hpad,
      indexes_of_covers hcovers hflat ht hlen⟩

/-- Three fragments make two references at most, and the last lasts no time. -/
def foldedTail : List Fragment :=
  [⟨100, 10, 0, 4, 0, true⟩, ⟨110, 20, 4, 5, 0, false⟩, ⟨130, 5, 9, 0, 0, true⟩]

theorem region_exact_folded : ∃ sidx,
    parseRegion (buildSidxRegion ⟨1, 90000, 0, 0⟩ foldedTail 64) = some sidx ∧
      Indexes sidx ⟨1, 90000, 0, 0⟩ foldedTail 100 135 (maxReferences 64) ∧
      sidx.references = [⟨false, 35, 9, 0x90000000⟩] := by
  have ht : Tiles 100 foldedTail 135 := by decide
  have hparse : (parseRegion (buildSidxRegion ⟨1, 90000, 0, 0⟩ foldedTail 64)).all (fun sidx ↦
      sidx.references = [⟨false, 35, 9, 0x90000000⟩]) = true := by decide +kernel
  obtain ⟨-, sidx, hsidx, hindexes⟩ :=
    (@region_exact 64 100 135 ⟨1, 90000, 0, 0⟩ foldedTail ht (by decide)).resolve_left
      (by decide +kernel)
  rw [hsidx] at hparse
  exact ⟨sidx, hsidx, hindexes, of_decide_eq_true hparse⟩

end

/-- What a reference may state. -/
structure InRange (reference : Reference) : Prop where
  size_pos : 0 < reference.size
  size_lt : reference.size < 2 ^ 31
  duration_pos : 0 < reference.duration
  duration_lt : reference.duration < 2 ^ 32

/-- Every reference may be stated as it is, a last one without a duration apart, which the one
before it takes in. -/
def AllInRange (groups : List (List (Fragment × ℤ))) : Prop :=
  (∀ group ∈ groups, InRange (mergeFragments group)) ∨
  ∃ before back tail, groups = before ++ [back, tail] ∧
    (∀ group ∈ before ++ [back], InRange (mergeFragments group)) ∧
    0 < (mergeFragments tail).size ∧ (mergeFragments tail).duration = 0 ∧
    (mergeFragments back).size + (mergeFragments tail).size < 2 ^ 31

variable {groups before rest : List (List (Fragment × ℤ))} {group : List (Fragment × ℤ)}
  {references : List Reference} {reserve : ℤ} {track : VideoTrack} {fragments : List Fragment}

theorem addReferences_cons (h : InRange (mergeFragments group)) :
    addReferences references (group :: rest) =
      addReferences (references ++ [mergeFragments group]) rest := by
  have hsize : ¬((mergeFragments group).size ≤ 0 ∨ maxReferencedSize < (mergeFragments group).size) := by
    have hpos := h.size_pos
    have hlt := h.size_lt
    rw [maxReferencedSize]
    omega
  have hduration : ¬((mergeFragments group).duration = 0 ∧ rest = []) := by
    intro hzero
    exact h.duration_pos.ne' hzero.1
  have hpush : pushReference references (mergeFragments group) =
      some (references ++ [mergeFragments group]) := by
    have hpos := h.duration_pos
    have hlt := h.duration_lt
    rw [pushReference, if_neg]
    omega
  rw [addReferences, if_neg hsize, if_neg hduration, hpush, Option.bind_some]

theorem addReferences_append (h : ∀ group ∈ before, InRange (mergeFragments group)) :
    addReferences references (before ++ rest) =
      addReferences (references ++ before.map mergeFragments) rest := by
  induction before generalizing references with
  | nil => rw [List.nil_append, List.map_nil, List.append_nil]
  | cons group before ih =>
    rw [List.cons_append, addReferences_cons (h group List.mem_cons_self),
      ih fun g hg ↦ h g (List.mem_cons_of_mem group hg), List.append_assoc, List.map_cons]
    rfl

/-- The loop does not refuse such references. -/
theorem addReferences_isSome (h : AllInRange groups) : (addReferences [] groups).isSome := by
  rcases h with hall | ⟨before, back, tail, rfl, hall, hsize, hduration, hfold⟩
  · have happend : addReferences [] (groups ++ []) = _ := addReferences_append hall
    rw [List.append_nil] at happend
    rw [happend]
    rfl
  · have hback := (hall back (by simp)).size_pos
    rw [show before ++ [back, tail] = (before ++ [back]) ++ [tail] by simp,
      addReferences_append hall, addReferences]
    have htail : foldTail ([] ++ (before ++ [back]).map mergeFragments) (mergeFragments tail) =
        some (before.map mergeFragments ++ [{ mergeFragments back with
          size := (mergeFragments back).size + (mergeFragments tail).size }]) := by
      rw [foldTail, List.nil_append, List.map_append, List.map_singleton, List.getLast?_concat]
      dsimp only
      rw [List.dropLast_concat, if_pos]
      rw [maxReferencedSize]
      omega
    rw [if_neg, if_pos ⟨hduration, rfl⟩, htail]
    · rfl
    · rw [maxReferencedSize]
      omega

theorem buildReferences_isSome (hfragments : fragments ≠ []) (htimescale : track.timescale ≠ 0)
    (hlimit : 0 < maxReferences reserve)
    (hrange : AllInRange (chunks (perReference fragments.length (maxReferences reserve))
      (lasting fragments))) : (buildReferences track fragments reserve).isSome := by
  rw [buildReferences, if_neg (not_or.mpr ⟨hfragments, htimescale⟩), if_neg hlimit.ne']
  exact addReferences_isSome hrange

/-- Any number of references up to the limit fills the region or leaves room for a free box, also
one fewer than there are groups, and so where the references may be stated there is an index. -/
theorem region_holds_references (hlimit : 0 < maxReferences reserve) :
    (∀ n ≤ maxReferences reserve,
      sidxHeaderBytes + sidxReferenceBytes * n = reserve ∨
        sidxHeaderBytes + sidxReferenceBytes * n + 8 ≤ reserve) ∧
    ∀ track fragments, fragments ≠ [] → track.timescale ≠ 0 →
      AllInRange (chunks (perReference fragments.length (maxReferences reserve))
        (lasting fragments)) →
      ∃ references, buildReferences track fragments reserve = some references ∧
        references.length ≤ maxReferences reserve ∧
        ¬(reserve - sidxBytes references < 0 ∨
          0 < reserve - sidxBytes references ∧ reserve - sidxBytes references < 8) ∧
        ((buildSidxRegion track fragments reserve).length : ℤ) = reserve := by
  constructor
  · intro n hn
    have hspec := maxReferences_spec reserve
    rw [sidxHeaderBytes, sidxReferenceBytes]
    omega
  · intro track fragments hfragments htimescale hrange
    obtain ⟨references, hbuild⟩ := Option.isSome_iff_exists.mp
      (buildReferences_isSome hfragments htimescale hlimit hrange)
    obtain ⟨groups, -, -, hlen⟩ := buildReferences_covers hbuild
    have hpadding := padding_fits hlimit hlen
    obtain ⟨hpad, hregion⟩ := buildSidxRegion_some hbuild
    refine ⟨references, hbuild, hlen, ?_, ?_⟩
    · omega
    · rw [hregion]
      exact region_length hpad

/-- Three fragments in a region of two references, the last of them without a duration. -/
theorem region_holds_folded : ∃ references,
    buildReferences ⟨1, 90000, 0, 0⟩ foldedTail 64 = some references ∧
      references.length ≤ maxReferences 64 ∧
      ((buildSidxRegion ⟨1, 90000, 0, 0⟩ foldedTail 64).length : ℤ) = 64 := by
  have hrange : AllInRange (chunks (perReference foldedTail.length (maxReferences 64))
      (lasting foldedTail)) := by
    refine .inr ⟨[], (lasting foldedTail).take 2, (lasting foldedTail).drop 2, ?_, ?_, ?_, ?_, ?_⟩
    · decide
    · intro group hgroup
      obtain rfl := List.mem_singleton.mp hgroup
      exact ⟨by decide, by decide, by decide, by decide⟩
    · decide
    · decide
    · decide
  obtain ⟨references, hbuild, hlen, -, hregion⟩ :=
    (@region_holds_references 64 (by decide)).2 ⟨1, 90000, 0, 0⟩ foldedTail
      (by decide) (by decide) hrange
  exact ⟨references, hbuild, hlen, hregion⟩

end ZoneMinder.Mp4Sidx
