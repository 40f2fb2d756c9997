import ZoneMinder.Mp4Sidx.Box

namespace ZoneMinder.Mp4Sidx

open Lib

structure VideoTrack where
  id : UInt32
  timescale : UInt32
  defaultSampleDuration : UInt32
  defaultSampleFlags : UInt32
  deriving DecidableEq

structure Fragment where
  offset : ℤ
  size : ℤ
  tfdt : ℤ
  trunDuration : ℤ
  firstCts : ℤ
  startsWithSap : Bool
  deriving DecidableEq

def tfhdBaseDataOffset : UInt32 := 0x000001
def tfhdSampleDescriptionIndex : UInt32 := 0x000002
def tfhdDefaultSampleDuration : UInt32 := 0x000008
def tfhdDefaultSampleSize : UInt32 := 0x000010
def tfhdDefaultSampleFlags : UInt32 := 0x000020

def trunDataOffset : UInt32 := 0x000001
def trunFirstSampleFlags : UInt32 := 0x000004
def trunSampleDuration : UInt32 := 0x000100
def trunSampleSize : UInt32 := 0x000200
def trunSampleFlags : UInt32 := 0x000400
def trunSampleCts : UInt32 := 0x000800

def sampleIsNonSync : UInt32 := 0x00010000
def maxSamplesPerTrun : ℕ := 2 ^ 20

def hasFlag (flags flag : UInt32) : Bool := flags &&& flag ≠ 0

def fieldBytes (flags flag : UInt32) (bytes : ℤ) : ℤ := if hasFlag flags flag then bytes else 0

/-- A field that is four bytes long in version 0 and comes after two of them, and after two
of eight bytes in version 1. -/
def readVersioned (file : Bytes) (box : Box) : Option UInt32 := do
  let version ← readExact file 1 box.body
  let word ← readExact file 4 (box.body + if byteAt version 0 = 1 then 20 else 12)
  return rb32 word 0

/-- The first trak with a video handler: its id and timescale. -/
def findVideoTrak (file : Bytes) : List Box → Option (UInt32 × UInt32)
  | [] => none
  | trak :: rest =>
    if trak.type ≠ fourCC 't' 'r' 'a' 'k' then findVideoTrak file rest
    else
      match findBox file trak.body trak.endOffset (fourCC 't' 'k' 'h' 'd'),
          findBox file trak.body trak.endOffset (fourCC 'm' 'd' 'i' 'a') with
      | some tkhd, some mdia =>
        match findBox file mdia.body mdia.endOffset (fourCC 'h' 'd' 'l' 'r'),
            findBox file mdia.body mdia.endOffset (fourCC 'm' 'd' 'h' 'd') with
        | some hdlr, some mdhd =>
          match readExact file 4 (hdlr.body + 8) with
          | none => none
          | some handler =>
            if handler ≠ fourCC 'v' 'i' 'd' 'e' then findVideoTrak file rest
            else do
              let id ← readVersioned file tkhd
              let timescale ← readVersioned file mdhd
              return (id, timescale)
        | _, _ => findVideoTrak file rest
      | _, _ => findVideoTrak file rest

/-- The default sample duration and flags in the track's trex, zero without one. -/
def trexDefaults (file : Bytes) (id : UInt32) : List Box → UInt32 × UInt32
  | [] => (0, 0)
  | trex :: rest =>
    if trex.type ≠ fourCC 't' 'r' 'e' 'x' then trexDefaults file id rest
    else
      match readExact file 20 (trex.body + 4) with
      | none => (0, 0)
      | some body =>
        if rb32 body 0 = id then (rb32 body 8, rb32 body 16) else trexDefaults file id rest

def readVideoTrack (file : Bytes) (fileSize : ℤ) : Option VideoTrack := do
  let moov ← findBox file 0 fileSize (fourCC 'm' 'o' 'o' 'v')
  let (id, timescale) ← findVideoTrak file (boxes file moov.body moov.endOffset).1
  if timescale = 0 then none
  else
    let defaults :=
      match findBox file moov.body moov.endOffset (fourCC 'm' 'v' 'e' 'x') with
      | none => (0, 0)
      | some mvex => trexDefaults file id (boxes file mvex.body mvex.endOffset).1
    return ⟨id, timescale, defaults.1, defaults.2⟩

/-- What parse_traf finds out; `tfdt` is -1 without a tfdt box. -/
structure Traf where
  trackId : UInt32
  tfdt : ℤ
  duration : ℤ
  firstCts : ℤ
  firstIsSync : Bool
  haveFirst : Bool
  haveFirstFlags : Bool
  deriving DecidableEq

/-- The track id and the defaults of a tfhd: sample duration, then sample flags. -/
def parseTfhd (file : Bytes) (tfhd : Box) (track : VideoTrack) : Option (UInt32 × UInt32 × UInt32) := do
  let head ← readExact file 8 tfhd.body
  let flags := rb32 head 0 &&& 0xFFFFFF
  let duration := tfhd.body + 8 + fieldBytes flags tfhdBaseDataOffset 8 +
    fieldBytes flags tfhdSampleDescriptionIndex 4
  let defaultDuration ←
    if hasFlag flags tfhdDefaultSampleDuration then (readExact file 4 duration).map (rb32 · 0)
    else some track.defaultSampleDuration
  let sampleFlags := duration + fieldBytes flags tfhdDefaultSampleDuration 4 +
    fieldBytes flags tfhdDefaultSampleSize 4
  let defaultFlags ←
    if hasFlag flags tfhdDefaultSampleFlags then (readExact file 4 sampleFlags).map (rb32 · 0)
    else some track.defaultSampleFlags
  return (rb32 head 4, defaultDuration, defaultFlags)

def parseTfdt (file : Bytes) : Option Box → Option ℤ
  | none => some (-1)
  | some tfdt => do
    let version ← readExact file 1 tfdt.body
    if byteAt version 0 = 1 then
      (readExact file 8 (tfdt.body + 4)).map fun value ↦ (rb64 value 0).toInt64.toInt
    else (readExact file 4 (tfdt.body + 4)).map fun value ↦ ((rb32 value 0).toNat : ℤ)

def trunWord (file : Bytes) (trun : Box) (offset : ℤ) : Option UInt32 :=
  if trun.endOffset < offset + 4 then none else (readExact file 4 offset).map (rb32 · 0)

/-- The flags of a trun's first sample: its own field, else the table's, else the default. -/
def firstFlags (file : Bytes) (trun : Box) (flags defaultFlags : UInt32) (entry : ℤ) : Option UInt32 :=
  if hasFlag flags trunFirstSampleFlags then trunWord file trun entry
  else if hasFlag flags trunSampleFlags then
    trunWord file trun (entry + fieldBytes flags trunSampleDuration 4 +
      fieldBytes flags trunSampleSize 4)
  else some defaultFlags

/-- The table's sample durations, which may be summed in any order, and the first sample's
composition offset, signed from version 1 on. -/
def readTable (table : Bytes) (version : UInt8) (flags : UInt32) (count perSample : ℕ)
    (wantFirstCts : Bool) (traf : Traf) : Traf :=
  let traf := if hasFlag flags trunSampleDuration then
    { traf with duration := traf.duration +
        ((List.range count).map fun i ↦ ((rb32 table (i * perSample)).toNat : ℤ)).sum }
    else traf
  if wantFirstCts && !traf.haveFirst && hasFlag flags trunSampleCts then
    let cts := rb32 table (perSample - 4)
    { traf with
      firstCts := if version = 1 then cts.toInt32.toInt else cts.toNat
      haveFirst := true }
  else traf

def parseTrun (file : Bytes) (defaultDuration defaultFlags : UInt32) (wantFirstCts : Bool)
    (traf : Traf) (trun : Box) : Option Traf := do
  let head ← readExact file 8 trun.body
  let version := byteAt head 0
  let flags := rb32 head 0 &&& 0xFFFFFF
  let count := (rb32 head 4).toNat
  if maxSamplesPerTrun < count then none
  else
    let entry := trun.body + 8 + fieldBytes flags trunDataOffset 4
    let traf ←
      if !traf.haveFirstFlags && decide (0 < count) then
        (firstFlags file trun flags defaultFlags entry).map fun sampleFlags ↦
          { traf with firstIsSync := !hasFlag sampleFlags sampleIsNonSync, haveFirstFlags := true }
      else some traf
    let entry := entry + fieldBytes flags trunFirstSampleFlags 4
    let perSample := (fieldBytes flags trunSampleDuration 4 + fieldBytes flags trunSampleSize 4 +
      fieldBytes flags trunSampleFlags 4 + fieldBytes flags trunSampleCts 4).toNat
    let traf :=
      if hasFlag flags trunSampleDuration then traf
      else { traf with duration := traf.duration + count * defaultDuration.toNat }
    if 0 < perSample ∧ 0 < count then
      if trun.endOffset < entry + (count * perSample : ℕ) then none
      else (readExact file (count * perSample) entry).map fun table ↦
        readTable table version flags count perSample wantFirstCts traf
    else return traf

def parseTraf (file : Bytes) (traf : Box) (track : VideoTrack) (wantFirstCts : Bool) :
    Option Traf := do
  let tfhd ← findBox file traf.body traf.endOffset (fourCC 't' 'f' 'h' 'd')
  let (trackId, defaultDuration, defaultFlags) ← parseTfhd file tfhd track
  let tfdt ← parseTfdt file (findBox file traf.body traf.endOffset (fourCC 't' 'f' 'd' 't'))
  let (children, ok) := boxes file traf.body traf.endOffset
  if ok then
    (children.filter (·.type = fourCC 't' 'r' 'u' 'n')).foldlM
      (parseTrun file defaultDuration defaultFlags wantFirstCts)
      ⟨trackId, tfdt, 0, 0, false, false, false⟩
  else none

/-- The video fields of a fragment, none while no video traf has been seen. -/
def scanTraf (file : Bytes) (track : VideoTrack) (wantCts : Bool) (fragment : Fragment)
    (video : Option Fragment) (traf : Box) : Option (Option Fragment) := do
  let parsed ← parseTraf file traf track wantCts
  if parsed.trackId ≠ track.id then return video
  else if parsed.tfdt < 0 then none
  else return some { fragment with
    tfdt := parsed.tfdt
    trunDuration := parsed.duration
    firstCts := if wantCts then parsed.firstCts else 0
    startsWithSap := parsed.firstIsSync }

def scanFragment (file : Bytes) (track : VideoTrack) (wantCts : Bool) (moof mdat : Box) :
    Option Fragment :=
  if moof.type ≠ fourCC 'm' 'o' 'o' 'f' ∨ mdat.type ≠ fourCC 'm' 'd' 'a' 't' then none
  else
    let (children, ok) := boxes file moof.body moof.endOffset
    if ok then
      ((children.filter (·.type = fourCC 't' 'r' 'a' 'f')).foldlM
        (scanTraf file track wantCts ⟨moof.offset, moof.size + mdat.size, 0, 0, 0, false⟩)
        none).join
    else none

/-- The fragments of a list of boxes that is nothing but pairs of moof and mdat. -/
def pairFragments (file : Bytes) (track : VideoTrack) : Bool → List Box → Option (List Fragment)
  | _, [] => some []
  | _, [_] => none
  | wantCts, moof :: mdat :: rest => do
    let fragment ← scanFragment file track wantCts moof mdat
    let fragments ← pairFragments file track false rest
    return fragment :: fragments

def scanFragments (file : Bytes) (start stop : ℤ) (track : VideoTrack) : Option (List Fragment) := do
  let (children, ok) := boxes file start stop
  if ok = true ∧ (children.getLast?.map Box.endOffset).getD start = stop then
    let fragments ← pairFragments file track true children
    if fragments = [] then none else return fragments
  else none

/-- The fragments lie side by side from `start` to `stop`. -/
def Tiles : ℤ → List Fragment → ℤ → Prop
  | start, [], stop => start = stop
  | start, f :: rest, stop => f.offset = start ∧ 0 < f.size ∧ Tiles (start + f.size) rest stop

instance : ∀ (start : ℤ) (fragments : List Fragment) (stop : ℤ), Decidable (Tiles start fragments stop)
  | start, [], stop => inferInstanceAs (Decidable (start = stop))
  | start, f :: rest, stop =>
    have := instDecidableTiles (start + f.size) rest stop
    inferInstanceAs (Decidable (_ ∧ _ ∧ _))

variable {file : Bytes} {start stop : ℤ} {track : VideoTrack} {fragments : List Fragment}
  {fragment : Fragment} {moof mdat : Box} {wantCts : Bool} {children : List Box}

theorem Tiles.append {l l' : List Fragment} (h : Tiles start (l ++ l') stop) :
    Tiles (start + (l.map (·.size)).sum) l' stop := by
  induction l generalizing start with
  | nil => simpa using h
  | cons f l ih =>
    have hrest := ih h.2.2
    rwa [Int.add_assoc] at hrest

theorem Tiles.sum (h : Tiles start fragments stop) : (fragments.map (·.size)).sum = stop - start := by
  have hend : start + (fragments.map (·.size)).sum = stop :=
    @Tiles.append start stop fragments [] (by rwa [List.append_nil])
  omega

theorem scanTraf_spec {base : Fragment} {video : Option Fragment} {traf : Box}
    (h : scanTraf file track wantCts base video traf = some (some fragment))
    (hvideo : ∀ f ∈ video, f.offset = base.offset ∧ f.size = base.size ∧ 0 ≤ f.tfdt) :
    fragment.offset = base.offset ∧ fragment.size = base.size ∧ 0 ≤ fragment.tfdt := by
  unfold scanTraf at h
  obtain ⟨parsed, -, h⟩ := Option.bind_eq_some_iff.mp h
  split at h
  · exact hvideo fragment (Option.some.inj h)
  · split at h
    · contradiction
    · next htfdt =>
      obtain rfl := Option.some.inj (Option.some.inj h)
      exact ⟨rfl, rfl, not_lt.mp htfdt⟩

theorem scanTrafs_spec {base : Fragment} {video : Option Fragment} {trafs : List Box}
    (h : trafs.foldlM (scanTraf file track wantCts base) video = some (some fragment))
    (hvideo : ∀ f ∈ video, f.offset = base.offset ∧ f.size = base.size ∧ 0 ≤ f.tfdt) :
    fragment.offset = base.offset ∧ fragment.size = base.size ∧ 0 ≤ fragment.tfdt := by
  induction trafs generalizing video with
  | nil => exact hvideo fragment (Option.some.inj h)
  | cons traf trafs ih =>
    rw [List.foldlM_cons] at h
    obtain ⟨next, hnext, h⟩ := Option.bind_eq_some_iff.mp h
    refine ih h fun f hf ↦ ?_
    obtain rfl := Option.mem_def.mp hf
    exact scanTraf_spec hnext hvideo

theorem scanFragment_spec (h : scanFragment file track wantCts moof mdat = some fragment) :
    fragment.offset = moof.offset ∧ fragment.size = moof.size + mdat.size ∧ 0 ≤ fragment.tfdt := by
  unfold scanFragment at h
  split at h
  · contradiction
  · dsimp only at h
    split at h
    · exact scanTrafs_spec (Option.join_eq_some_iff.mp h) fun _ hf ↦ by contradiction
    · contradiction

theorem pairFragments_tiles
    (h : pairFragments file track wantCts children = some fragments)
    (ht : Tiled (readBox file · stop) Box.endOffset start children stop) :
    Tiles start fragments stop ∧ ∀ f ∈ fragments, 0 ≤ f.tfdt := by
  fun_induction pairFragments file track wantCts children generalizing fragments start with
  | case1 =>
    obtain rfl := Option.some.inj h
    exact ⟨ht, fun f hf ↦ by contradiction⟩
  | case2 => contradiction
  | case3 wantCts moof mdat rest ih =>
    obtain ⟨fragment, hfragment, h⟩ := Option.bind_eq_some_iff.mp h
    obtain ⟨fragments', hrest, h⟩ := Option.bind_eq_some_iff.mp h
    obtain rfl := Option.some.inj h
    obtain ⟨hmoof, hmdat, ht⟩ := ht
    obtain ⟨hoffset, hsize, htfdt⟩ := scanFragment_spec hfragment
    have hmoof' := readBox_spec hmoof
    have hmdat' := readBox_spec hmdat
    have hstop : mdat.endOffset = start + fragment.size := by
      simp only [Box.endOffset] at hmdat' ⊢
      omega
    obtain ⟨htiles, hall⟩ := ih hrest ht
    refine ⟨⟨hoffset.trans hmoof'.2.1, by omega, hstop ▸ htiles⟩, fun f hf ↦ ?_⟩
    rcases List.mem_cons.mp hf with rfl | hf
    · exact htfdt
    · exact hall f hf

/-- What scan_fragments finds is whole fragments side by side, which is what an index needs. -/
theorem scanFragments_tiles (h : scanFragments file start stop track = some fragments) :
    Tiles start fragments stop ∧ fragments ≠ [] ∧ ∀ f ∈ fragments, 0 ≤ f.tfdt := by
  unfold scanFragments at h
  dsimp only at h
  split at h
  · next hcond =>
    obtain ⟨hok, hstop⟩ := hcond
    obtain ⟨fragments', hpairs, h⟩ := Option.bind_eq_some_iff.mp h
    split at h
    · contradiction
    · next hne =>
      obtain rfl := Option.some.inj h
      obtain ⟨last, ht, -⟩ := @tiled_of_segments _ _ _ _ _ start (boxes file start stop).1 [] _
        readBox_lt (by omega) (Prod.ext (List.append_nil _).symm rfl)
      obtain ⟨htiles, hall⟩ := pairFragments_tiles hpairs (ht.last_eq.symm.trans hstop ▸ ht)
      exact ⟨htiles, hne, hall⟩
  · contradiction

end ZoneMinder.Mp4Sidx
