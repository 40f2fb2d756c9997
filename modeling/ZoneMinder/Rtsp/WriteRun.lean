import ZoneMinder.Lib.Run
import ZoneMinder.Rtsp.AnnexB
import Mathlib.Data.List.Induction

namespace ZoneMinder.Rtsp

open Lib

abbrev maxNalSize : ℕ := 1400

/-- The bytes in front of the payload of a fragment. -/
def headerSize (hType : ℕ) : ℕ := if hType = 264 then 2 else 3

/-- The FU indicator or payload header, and the FU header with the S bit. -/
def fuStart (hType : ℕ) (nal : Bytes) : Bytes :=
  let b : UInt8 := nal.headD 0
  if hType = 264 then
    let indicator := (b &&& 0xE0) ||| 28
    let fuHeader := 0x80 ||| (b &&& 0x1F)
    [indicator, fuHeader]
  else
    let nalUnitType := (b &&& (0x7E : UInt8)) >>> (1 : UInt8)
    let payloadHeader := (b &&& 0x81) ||| ((49 : UInt8) <<< (1 : UInt8))
    let fuHeader := 0x80 ||| nalUnitType
    [payloadHeader, nal.getD 1 0, fuHeader]

/-- The fragments behind the first one. The header stays in the buffer from one to the next. -/
def fuRest (hType : ℕ) (header nal : Bytes) : ℕ → List Bytes
  | 0 => []
  | n + 1 =>
    if nal = [] then []
    else
      let header := if nal.length < maxNalSize then
        header.modify (headerSize hType - 1) (· ||| 0x40) else header
      let fuNalSize := if nal.length < maxNalSize - headerSize hType then nal.length
        else maxNalSize - headerSize hType
      (header ++ nal.take fuNalSize) :: fuRest hType header (nal.drop fuNalSize) n

/-- What WriteRun pushes for one frame. -/
def fragments (hType : ℕ) (nal : Bytes) : List Bytes :=
  if nal.length > maxNalSize then
    let header := fuStart hType nal
    (header ++ (nal.take (maxNalSize - 1)).drop (headerSize hType - 1)) ::
      fuRest hType (header.modify (headerSize hType - 1) (· &&& ~~~0x80))
        (nal.drop (maxNalSize - 1)) nal.length
  else [nal]

inductive Codec
  | h264 | h265
  deriving DecidableEq

def Codec.hType : Codec → ℕ
  | h264 => 264
  | h265 => 265

def Codec.splitFrames :
    Codec → H26xSource → Bytes → Except SplitFault (List Bytes × ℕ × H26xSource)
  | h264 => H264.splitFrames
  | h265 => H265.splitFrames

def Codec.parameterSet : Codec → UInt8 → Option ParameterSet
  | h264 => H264.parameterSet
  | h265 => H265.parameterSet

/-- A source between the monitor's socket and the RTSP server. -/
structure StreamSource where
  source : H26xSource := {}
  nalQueue : List (Bytes × ℤ) := []
  pushed : List (Bytes × ℤ) := []

namespace StreamSource

def onPacket (codec : Codec) (s : StreamSource) (data : Bytes) (pts : ℤ) :
    Except SplitFault StreamSource :=
  if data = [] then .ok s
  else do
    let (frames, _, source) ← codec.splitFrames s.source data
    return { s with source := source, nalQueue := s.nalQueue ++ frames.map (·, pts) }

/-- One round of WriteRun, which waits while there is no frame. -/
def writeRun (codec : Codec) (s : StreamSource) : Option StreamSource :=
  match s.nalQueue with
  | [] => none
  | (nal, pts) :: queue =>
    some { s with
      nalQueue := queue
      pushed := s.pushed ++ (fragments codec.hType nal).map (·, pts) }

inductive Op
  | packet (data : Bytes) (pts : ℤ)
  | write

/-- The two threads of a source take the lock in some order. -/
def step (codec : Codec) (s : StreamSource) : Op → Option StreamSource
  | .packet data pts => (s.onPacket codec data pts).toOption
  | .write => s.writeRun codec

end StreamSource

@[ext] structure Fragment where
  start : Bool
  last : Bool
  header : Bytes
  payload : Bytes

/-- A packet that is a fragment, with the header of the frame that it belongs to. -/
def Codec.asFragment : Codec → List UInt8 → Option Fragment
  | h264, b :: fu :: payload =>
    if b &&& 0x1F = 28 then
      some ⟨fu &&& 0x80 ≠ 0, fu &&& 0x40 ≠ 0, [(b &&& 0xE0) ||| (fu &&& 0x1F)], payload⟩
    else none
  | h265, b :: b' :: fu :: payload =>
    if (b &&& 0x7E) >>> 1 = 49 then
      let first := (b &&& 0x81) ||| ((fu &&& (0x3F : UInt8)) <<< (1 : UInt8))
      some ⟨fu &&& 0x80 ≠ 0, fu &&& 0x40 ≠ 0, [first, b'], payload⟩
    else none
  | _, _ => none

/-- A receiver that puts fragments together. -/
structure Receiver where
  building : Option Bytes := none
  received : List (Bytes × ℤ) := []

/-- A fragment that nothing was started for is dropped. -/
def Receiver.take (codec : Codec) (r : Receiver) (packet : Bytes × ℤ) : Receiver :=
  match codec.asFragment packet.1 with
  | none => ⟨none, r.received ++ [packet]⟩
  | some x =>
    match if x.start then some (x.header ++ x.payload) else r.building.map (· ++ x.payload) with
    | none => r
    | some nal =>
      if x.last then ⟨none, r.received ++ [(nal, packet.2)]⟩ else { r with building := some nal }

/-- The payload that a fragment has room for. -/
def Codec.chunk (codec : Codec) : ℕ := maxNalSize - headerSize codec.hType

/-- The bytes at the end of a frame that come behind a fragment with the E bit, when `n` bytes
are behind the first fragment. -/
def lostBehind (codec : Codec) (n : ℕ) : ℕ :=
  if codec.chunk < n ∧ n % codec.chunk < headerSize codec.hType then n % codec.chunk else 0

def lost (codec : Codec) (n : ℕ) : ℕ :=
  if n > maxNalSize then lostBehind codec (n - (maxNalSize - 1)) else 0

/-- What arrives of a frame. -/
def arrives (codec : Codec) (nal : Bytes) : Bytes := nal.take (nal.length - lost codec nal.length)

variable {codec : Codec} {nal payload acc : Bytes} {pts : ℤ} {r : Receiver} {n : ℕ}

theorem chunk_spec (codec : Codec) : codec.chunk + headerSize codec.hType = 1400 ∧
    2 ≤ headerSize codec.hType ∧ headerSize codec.hType ≤ 3 := by
  cases codec <;> decide

theorem lostBehind_le (codec : Codec) (n : ℕ) : lostBehind codec n ≤ n := by
  unfold lostBehind
  split
  · exact Nat.mod_le _ _
  · exact Nat.zero_le _

theorem lostBehind_of_le (h : n ≤ codec.chunk) : lostBehind codec n = 0 :=
  if_neg fun hlt ↦ absurd hlt.1 (by omega)

theorem lostBehind_of_lt (h : codec.chunk < n) (hlt : n < maxNalSize) :
    lostBehind codec n = n - codec.chunk := by
  obtain ⟨hsum, hpos, hle⟩ := chunk_spec codec
  have hmax : maxNalSize = 1400 := rfl
  have hmod : n % codec.chunk = n - codec.chunk := by
    rw [Nat.mod_eq_sub_mod (by omega), Nat.mod_eq_of_lt (by omega)]
  unfold lostBehind
  rw [hmod, if_pos ⟨h, by omega⟩]

theorem lostBehind_of_ge (h : maxNalSize ≤ n) :
    lostBehind codec n = lostBehind codec (n - codec.chunk) := by
  obtain ⟨hsum, hpos, hle⟩ := chunk_spec codec
  have hmax : maxNalSize = 1400 := rfl
  have hmod : n % codec.chunk = (n - codec.chunk) % codec.chunk :=
    Nat.mod_eq_sub_mod (by omega)
  unfold lostBehind
  rw [← hmod]
  by_cases hlt : codec.chunk < n - codec.chunk
  · exact if_congr (and_congr_left' (iff_of_true (by omega) hlt)) rfl rfl
  · rw [if_neg (c := codec.chunk < n - codec.chunk ∧ _) fun h ↦ hlt h.1]
    obtain heq | hne := Nat.eq_or_lt_of_le (Nat.le_of_not_lt hlt)
    · rw [hmod, heq, Nat.mod_self, ite_self]
    · rw [hmod, Nat.mod_eq_of_lt hne, if_neg]
      omega

/-- The header of a fragment of a frame. -/
def IsHeader (codec : Codec) (nal : Bytes) (start last : Bool) (header : Bytes) : Prop :=
  ∀ payload, codec.asFragment (header ++ payload) =
    some ⟨start, last, nal.take (headerSize codec.hType - 1), payload⟩

theorem h264_fuHeaders : ∀ b : UInt8,
    let indicator := (b &&& 0xE0) ||| 28
    let start := 0x80 ||| (b &&& 0x1F)
    let middle := start &&& ~~~0x80
    let last := middle ||| 0x40
    indicator &&& 0x1F = 28 ∧
      (start &&& 0x80 ≠ 0 ∧ start &&& 0x40 = 0 ∧ (indicator &&& 0xE0) ||| (start &&& 0x1F) = b) ∧
      (middle &&& 0x80 = 0 ∧ middle &&& 0x40 = 0 ∧
        (indicator &&& 0xE0) ||| (middle &&& 0x1F) = b) ∧
      last &&& 0x80 = 0 ∧ last &&& 0x40 ≠ 0 ∧ (indicator &&& 0xE0) ||| (last &&& 0x1F) = b :=
  byte_induction (by decide +kernel)

theorem h265_fuHeaders : ∀ b : UInt8,
    let payloadHeader := (b &&& 0x81) ||| ((49 : UInt8) <<< (1 : UInt8))
    let start := 0x80 ||| ((b &&& (0x7E : UInt8)) >>> (1 : UInt8))
    let middle := start &&& ~~~0x80
    let last := middle ||| 0x40
    (payloadHeader &&& 0x7E) >>> 1 = 49 ∧
      (start &&& 0x80 ≠ 0 ∧ start &&& 0x40 = 0 ∧
        (payloadHeader &&& 0x81) ||| ((start &&& (0x3F : UInt8)) <<< (1 : UInt8)) = b) ∧
      (middle &&& 0x80 = 0 ∧ middle &&& 0x40 = 0 ∧
        (payloadHeader &&& 0x81) ||| ((middle &&& (0x3F : UInt8)) <<< (1 : UInt8)) = b) ∧
      last &&& 0x80 = 0 ∧ last &&& 0x40 ≠ 0 ∧
        (payloadHeader &&& 0x81) ||| ((last &&& (0x3F : UInt8)) <<< (1 : UInt8)) = b :=
  byte_induction (by decide +kernel)

/-- The header in the buffer while the fragments behind the first one are pushed. -/
def fuMiddle (codec : Codec) (nal : Bytes) : Bytes :=
  (fuStart codec.hType nal).modify (headerSize codec.hType - 1) (· &&& ~~~0x80)

def fuLast (codec : Codec) (nal : Bytes) : Bytes :=
  (fuMiddle codec nal).modify (headerSize codec.hType - 1) (· ||| 0x40)

theorem fuHeaders (codec : Codec) (hnal : 2 ≤ nal.length) :
    IsHeader codec nal true false (fuStart codec.hType nal) ∧
      IsHeader codec nal false false (fuMiddle codec nal) ∧
      IsHeader codec nal false true (fuLast codec nal) := by
  obtain ⟨b, nal, rfl⟩ := List.exists_cons_of_length_pos (by omega : 0 < nal.length)
  have hpos : 0 < nal.length := Nat.le_of_succ_le_succ hnal
  obtain ⟨b', nal, rfl⟩ := List.exists_cons_of_length_pos hpos
  cases codec with
  | h264 =>
    obtain ⟨htype, ⟨hs, he, hb⟩, ⟨hs', he', hb'⟩, hs'', he'', hb''⟩ := h264_fuHeaders b
    refine ⟨fun payload ↦ (if_pos htype).trans (congrArg some ?_),
      fun payload ↦ (if_pos htype).trans (congrArg some ?_),
      fun payload ↦ (if_pos htype).trans (congrArg some ?_)⟩
    · exact Fragment.ext (decide_eq_true hs) (decide_eq_false (not_not.mpr he))
        (congrArg (fun b ↦ [b]) hb) rfl
    · exact Fragment.ext (decide_eq_false (not_not.mpr hs')) (decide_eq_false (not_not.mpr he'))
        (congrArg (fun b ↦ [b]) hb') rfl
    · exact Fragment.ext (decide_eq_false (not_not.mpr hs'')) (decide_eq_true he'')
        (congrArg (fun b ↦ [b]) hb'') rfl
  | h265 =>
    obtain ⟨htype, ⟨hs, he, hb⟩, ⟨hs', he', hb'⟩, hs'', he'', hb''⟩ := h265_fuHeaders b
    refine ⟨fun payload ↦ (if_pos htype).trans (congrArg some ?_),
      fun payload ↦ (if_pos htype).trans (congrArg some ?_),
      fun payload ↦ (if_pos htype).trans (congrArg some ?_)⟩
    · exact Fragment.ext (decide_eq_true hs) (decide_eq_false (not_not.mpr he))
        (congrArg (fun b ↦ [b, b']) hb) rfl
    · exact Fragment.ext (decide_eq_false (not_not.mpr hs')) (decide_eq_false (not_not.mpr he'))
        (congrArg (fun b ↦ [b, b']) hb') rfl
    · exact Fragment.ext (decide_eq_false (not_not.mpr hs'')) (decide_eq_true he'')
        (congrArg (fun b ↦ [b, b']) hb'') rfl

section

variable {header rest : Bytes}

theorem take_start (h : IsHeader codec nal true false header) (r : Receiver) :
    r.take codec (header ++ payload, pts) =
      ⟨some (nal.take (headerSize codec.hType - 1) ++ payload), r.received⟩ := by
  unfold Receiver.take
  rw [h payload]
  rfl

theorem take_middle (h : IsHeader codec nal false false header)
    (r : List (Bytes × ℤ)) : Receiver.take codec ⟨some acc, r⟩ (header ++ payload, pts) =
      ⟨some (acc ++ payload), r⟩ := by
  unfold Receiver.take
  rw [h payload]
  rfl

theorem take_last (h : IsHeader codec nal false true header)
    (r : List (Bytes × ℤ)) : Receiver.take codec ⟨some acc, r⟩ (header ++ payload, pts) =
      ⟨none, r ++ [(acc ++ payload, pts)]⟩ := by
  unfold Receiver.take
  rw [h payload]
  rfl

/-- Nothing was started. -/
theorem take_dropped {last : Bool} (h : IsHeader codec nal false last header)
    (r : List (Bytes × ℤ)) : Receiver.take codec ⟨none, r⟩ (header ++ payload, pts) =
      ⟨none, r⟩ := by
  unfold Receiver.take
  rw [h payload]
  rfl

end

theorem fuLast_modify : (fuLast codec nal).modify (headerSize codec.hType - 1) (· ||| 0x40) =
    fuLast codec nal := by
  unfold fuLast
  rw [List.modify_modify_eq]
  congr 1
  funext b
  rw [Function.comp_apply, UInt8.or_assoc, UInt8.or_self]

/-- A rest that fits goes into one fragment. -/
theorem fuRest_le {header rest : Bytes} (hrest : rest ≠ []) (hle : rest.length ≤ codec.chunk) :
    fuRest codec.hType header rest (n + 1) =
      [header.modify (headerSize codec.hType - 1) (· ||| 0x40) ++ rest] := by
  obtain ⟨hsum, hpos, -⟩ := chunk_spec codec
  have hmax : maxNalSize = 1400 := rfl
  have hchunk : maxNalSize - headerSize codec.hType = codec.chunk := rfl
  have hsize : (if rest.length < codec.chunk then rest.length else codec.chunk) = rest.length := by
    split <;> omega
  have hnil (n : ℕ) (header : Bytes) : fuRest codec.hType header [] n = [] := by
    cases n <;> rfl
  rw [fuRest, if_neg hrest, hchunk, if_pos (by omega)]
  dsimp only
  rw [hsize, List.take_length, List.drop_length, hnil]

/-- A rest that does not fit, and the fragment has the E bit all the same. -/
theorem fuRest_lt {header rest : Bytes} (hlt : codec.chunk < rest.length)
    (hmax : rest.length < maxNalSize) : fuRest codec.hType header rest (n + 1) =
      (header.modify (headerSize codec.hType - 1) (· ||| 0x40) ++ rest.take codec.chunk) ::
        fuRest codec.hType (header.modify (headerSize codec.hType - 1) (· ||| 0x40))
          (rest.drop codec.chunk) n := by
  have hchunk : maxNalSize - headerSize codec.hType = codec.chunk := rfl
  rw [fuRest, if_neg (List.ne_nil_of_length_pos (by omega)), hchunk, if_pos hmax]
  dsimp only
  rw [if_neg (by omega)]

theorem fuRest_ge {header rest : Bytes} (hge : maxNalSize ≤ rest.length) :
    fuRest codec.hType header rest (n + 1) =
      (header ++ rest.take codec.chunk) ::
        fuRest codec.hType header (rest.drop codec.chunk) n := by
  obtain ⟨hsum, hpos, -⟩ := chunk_spec codec
  have hmax : maxNalSize = 1400 := rfl
  have hchunk : maxNalSize - headerSize codec.hType = codec.chunk := rfl
  rw [fuRest, if_neg (List.ne_nil_of_length_pos (by omega)), hchunk, if_neg (by omega)]
  dsimp only
  rw [if_neg (by omega)]

/-- What the fragments behind the first one add. -/
theorem take_fuRest {rest : Bytes} (hnal : 2 ≤ nal.length) (hrest : rest ≠ [])
    (hn : rest.length ≤ n) (received : List (Bytes × ℤ)) :
    ((fuRest codec.hType (fuMiddle codec nal) rest n).map (·, pts)).foldl (Receiver.take codec)
        ⟨some acc, received⟩ =
      ⟨none, received ++
        [(acc ++ rest.take (rest.length - lostBehind codec rest.length), pts)]⟩ := by
  obtain ⟨-, hmiddle, hlast⟩ := fuHeaders codec hnal
  obtain ⟨hsum, hpos, hle⟩ := chunk_spec codec
  have hmax : maxNalSize = 1400 := rfl
  have heq : (fuMiddle codec nal).modify (headerSize codec.hType - 1) (· ||| 0x40) =
      fuLast codec nal := rfl
  induction n generalizing rest acc with
  | zero =>
    exact absurd (List.eq_nil_of_length_eq_zero (Nat.le_zero.mp hn)) hrest
  | succ n ih =>
    by_cases hfits : rest.length ≤ codec.chunk
    · rw [fuRest_le hrest hfits, heq, lostBehind_of_le hfits, Nat.sub_zero, List.take_length]
      exact take_last hlast received
    · by_cases hbelow : rest.length < maxNalSize
      · have hdrop : (rest.drop codec.chunk).length ≤ codec.chunk := by
          rw [List.length_drop]
          omega
        obtain ⟨n, rfl⟩ := Nat.exists_eq_add_one_of_ne_zero (by omega : n ≠ 0)
        rw [fuRest_lt (by omega) hbelow, heq,
          fuRest_le (List.ne_nil_of_length_pos (by rw [List.length_drop]; omega)) hdrop,
          fuLast_modify, lostBehind_of_lt (by omega) hbelow, Nat.sub_sub_self (by omega)]
        simp only [List.map_cons, List.map_nil, List.foldl_cons, List.foldl_nil]
        rw [take_last hlast, take_dropped hlast]
      · have hge := Nat.le_of_not_lt hbelow
        rw [fuRest_ge hge, List.map_cons, List.foldl_cons, take_middle hmiddle,
          ih (List.ne_nil_of_length_pos (by rw [List.length_drop]; omega))
            (by rw [List.length_drop]; omega), lostBehind_of_ge hge, List.length_drop,
          List.append_assoc, ← List.take_add, Nat.sub_right_comm,
          Nat.add_sub_of_le (Nat.le_sub_of_add_le ?_)]
        have hlost := lostBehind_le codec (rest.length - codec.chunk)
        omega

/-- What a receiver makes of the packets of a frame. -/
theorem take_fragments (hwhole : nal.length ≤ maxNalSize → codec.asFragment nal = none)
    (r : Receiver) :
    ((fragments codec.hType nal).map (·, pts)).foldl (Receiver.take codec) r =
      ⟨none, r.received ++ [(arrives codec nal, pts)]⟩ := by
  obtain ⟨hsum, hpos, hle⟩ := chunk_spec codec
  have hmax : maxNalSize = 1400 := rfl
  unfold fragments arrives lost
  by_cases hlong : nal.length > maxNalSize
  · have hnal : 2 ≤ nal.length := by omega
    obtain ⟨hstart, -, -⟩ := fuHeaders codec hnal
    have hfirst : nal.take (headerSize codec.hType - 1) ++
        (nal.take (maxNalSize - 1)).drop (headerSize codec.hType - 1) =
          nal.take (maxNalSize - 1) := by
      have hheader : (nal.take (maxNalSize - 1)).take (headerSize codec.hType - 1) =
          nal.take (headerSize codec.hType - 1) := by
        rw [List.take_take, Nat.min_eq_left (by omega)]
      rw [← hheader]
      exact List.take_append_drop _ _
    rw [if_pos hlong, if_pos hlong, List.map_cons, List.foldl_cons, take_start hstart, hfirst]
    change List.foldl _ _ (List.map _ (fuRest _ (fuMiddle codec nal) _ _)) = _
    rw [take_fuRest hnal (List.ne_nil_of_length_pos (by rw [List.length_drop]; omega))
      (by rw [List.length_drop]; omega), ← List.take_add, List.length_drop, Nat.sub_right_comm,
      Nat.add_sub_of_le (Nat.le_sub_of_add_le ?_)]
    have hlost := lostBehind_le codec (nal.length - (maxNalSize - 1))
    omega
  · have hasFragment := hwhole (Nat.le_of_not_lt hlong)
    rw [if_neg hlong, if_neg hlong, Nat.sub_zero, List.take_length]
    change Receiver.take codec r (nal, pts) = _
    unfold Receiver.take
    rw [hasFragment]

/-- An access unit as an encoder sends it: frames behind their markers, none of which looks like
a fragment when it is sent whole. -/
structure AccessUnit (codec : Codec) where
  lead : Bytes
  nals : List (Bool × Bytes)
  pts : ℤ
  lead_unmarked : Unmarked lead
  lead_last : lead.getLast? ≠ some 0
  nals_ne_nil : nals ≠ []
  isNal : ∀ nal ∈ nals, IsNal nal.2
  whole : ∀ nal ∈ nals, nal.2.length ≤ maxNalSize → codec.asFragment nal.2 = none

namespace AccessUnit

def data (unit : AccessUnit codec) : Bytes := unit.lead ++ annexB unit.nals

/-- The frames with their time. -/
def frames (unit : AccessUnit codec) : List (Bytes × ℤ) :=
  unit.nals.map fun nal ↦ (nal.2, unit.pts)

end AccessUnit

/-- A camera sends access units while the two threads run in some order. -/
inductive CameraOp (codec : Codec)
  | packet (unit : AccessUnit codec)
  | write

namespace CameraOp

def op : CameraOp codec → StreamSource.Op
  | .packet unit => .packet unit.data unit.pts
  | .write => .write

def frames : CameraOp codec → List (Bytes × ℤ)
  | .packet unit => unit.frames
  | .write => []

end CameraOp

def cameraStep (codec : Codec) (s : StreamSource) (op : CameraOp codec) : Option StreamSource :=
  s.step codec op.op

theorem splitFrames_data {s : H26xSource} (hs : s.keepMarker = false) (unit : AccessUnit codec) :
    codec.splitFrames s unit.data = .ok (unit.nals.map Prod.snd, 0,
      s.assignAll codec.parameterSet (unit.nals.map Prod.snd)) := by
  obtain ⟨h264, h265⟩ := splitFrames_eq hs
    (splits_annexB unit.nals unit.lead_unmarked unit.lead_last unit.isNal unit.nals_ne_nil)
  cases codec
  · exact h264
  · exact h265

/-- What was sent is either at the receiver or in the queue. -/
structure Carried (codec : Codec) (frames : List (Bytes × ℤ)) (s : StreamSource) : Prop where
  keepMarker : s.source.keepMarker = false
  whole : ∀ x ∈ s.nalQueue, x.1.length ≤ maxNalSize → codec.asFragment x.1 = none
  received : (s.pushed.foldl (Receiver.take codec) {}).received ++
      s.nalQueue.map (fun x ↦ (arrives codec x.1, x.2)) =
    frames.map fun x ↦ (arrives codec x.1, x.2)

theorem data_ne_nil (unit : AccessUnit codec) : unit.data ≠ [] := by
  obtain ⟨nal, nals, heq⟩ := List.exists_cons_of_ne_nil unit.nals_ne_nil
  have hlong := marker_length_le nal.1
  unfold AccessUnit.data
  rw [heq, annexB_cons]
  apply List.ne_nil_of_length_pos
  simp only [List.length_append]
  omega

theorem onPacket_data {s : StreamSource} (hs : s.source.keepMarker = false)
    (unit : AccessUnit codec) : s.onPacket codec unit.data unit.pts = .ok { s with
      source := s.source.assignAll codec.parameterSet (unit.nals.map Prod.snd)
      nalQueue := s.nalQueue ++ unit.frames } := by
  have hframes : (unit.nals.map Prod.snd).map (·, unit.pts) = unit.frames := by
    rw [List.map_map]
    rfl
  unfold StreamSource.onPacket
  rw [if_neg (data_ne_nil unit), splitFrames_data hs unit, ← hframes]
  rfl

theorem Carried.packet {frames : List (Bytes × ℤ)} {s : StreamSource}
    (h : Carried codec frames s) (unit : AccessUnit codec) :
    ∃ t, s.onPacket codec unit.data unit.pts = .ok t ∧ Carried codec (frames ++ unit.frames) t := by
  have hassigned := H26xSource.assignAll_keepMarker codec.parameterSet
    (unit.nals.map Prod.snd) s.source
  refine ⟨_, onPacket_data h.keepMarker unit, hassigned.trans h.keepMarker, ?_, ?_⟩
  · intro x hx
    obtain hx | hx := List.mem_append.mp hx
    · exact h.whole x hx
    · obtain ⟨nal, hnal, rfl⟩ := List.mem_map.mp hx
      exact unit.whole nal hnal
  · dsimp only
    rw [List.map_append, ← List.append_assoc, h.received, List.map_append]

theorem Carried.write {frames : List (Bytes × ℤ)} {s t : StreamSource}
    (h : Carried codec frames s) (hwrite : s.writeRun codec = some t) : Carried codec frames t := by
  unfold StreamSource.writeRun at hwrite
  cases hqueue : s.nalQueue with
  | nil =>
    rw [hqueue] at hwrite
    contradiction
  | cons x queue =>
    rw [hqueue] at hwrite
    obtain rfl := Option.some.inj hwrite
    have hwhole := h.whole
    have hreceived := h.received
    rw [hqueue] at hwhole hreceived
    refine ⟨h.keepMarker, fun y hy ↦ hwhole y (List.mem_cons_of_mem _ hy), ?_⟩
    rw [List.foldl_append, take_fragments (hwhole x List.mem_cons_self), ← hreceived,
      List.append_assoc]
    rfl

theorem Carried.step {frames : List (Bytes × ℤ)} {s t : StreamSource} {op : CameraOp codec}
    (h : Carried codec frames s) (hstep : cameraStep codec s op = some t) :
    Carried codec (frames ++ op.frames) t := by
  cases op with
  | packet unit =>
    obtain ⟨t', ht', hcarried⟩ := h.packet unit
    have heq : cameraStep codec s (.packet unit) = some t' := congrArg Except.toOption ht'
    obtain rfl := Option.some.inj (heq.symm.trans hstep)
    exact hcarried
  | write =>
    rw [CameraOp.frames, List.append_nil]
    exact h.write hstep

/-- The sizes of the frames that lose their last bytes: a fragment gets the E bit while one or two
bytes are still to come. -/
def CutShort (codec : Codec) (n : ℕ) : Prop :=
  maxNalSize < n ∧ codec.chunk < n - (maxNalSize - 1) ∧
    0 < (n - (maxNalSize - 1)) % codec.chunk ∧
    (n - (maxNalSize - 1)) % codec.chunk < headerSize codec.hType

theorem lost_eq_zero_iff : lost codec n = 0 ↔ ¬CutShort codec n := by
  unfold lost lostBehind CutShort
  split_ifs <;> omega

theorem arrives_eq_iff : arrives codec nal = nal ↔ ¬CutShort codec nal.length := by
  rw [← lost_eq_zero_iff]
  unfold arrives
  rw [List.take_eq_self_iff]
  have hle : lost codec nal.length ≤ nal.length := by
    unfold lost
    split
    · exact (lostBehind_le _ _).trans (Nat.sub_le _ _)
    · exact Nat.zero_le _
  cases nal with
  | nil => simp [lost]
  | cons => rw [List.length_cons] at hle ⊢; omega

/-- Whatever the order of the threads, the receiver has the frames in the order in which they
were sent, each at its time, and those it does not have yet are in the queue. Each is as it was
sent, but for the last bytes of one that is cut short. -/
theorem received_frames {ops : List (CameraOp codec)} {s : StreamSource}
    (h : Run (cameraStep codec) (fun _ _ ↦ True) {} ops s) :
    (s.pushed.foldl (Receiver.take codec) {}).received ++
        s.nalQueue.map (fun x ↦ (arrives codec x.1, x.2)) =
      (ops.flatMap CameraOp.frames).map (fun x ↦ (arrives codec x.1, x.2)) ∧
    ∀ nal, arrives codec nal = nal ↔ ¬CutShort codec nal.length := by
  have hcarried := h.invariant_along
    (I := fun ops s ↦ Carried codec (ops.flatMap CameraOp.frames) s) (fun before s op t hs _ hstep ↦ ?_) ⟨rfl, nofun, rfl⟩
  · exact ⟨hcarried.received, fun nal ↦ arrives_eq_iff⟩
  · rw [List.flatMap_append, List.flatMap_singleton]
    exact hs.step hstep

/-- The sending thread by itself empties the queue. -/
theorem exists_drained (s : StreamSource) : ∃ t,
    Run (cameraStep codec) (fun _ _ ↦ True) s (List.replicate s.nalQueue.length .write) t ∧
      t.nalQueue = [] ∧ t.pushed =
        s.pushed ++ s.nalQueue.flatMap fun x ↦ (fragments codec.hType x.1).map (·, x.2) := by
  obtain ⟨source, queue, pushed⟩ := s
  induction queue generalizing pushed with
  | nil => exact ⟨_, .nil _, rfl, (List.append_nil _).symm⟩
  | cons x queue ih =>
    obtain ⟨t, hrun, hempty, hpushed⟩ := ih (pushed ++ (fragments codec.hType x.1).map (·, x.2))
    refine ⟨t, .cons trivial rfl hrun, hempty, hpushed.trans ?_⟩
    rw [List.flatMap_cons, List.append_assoc]

theorem exists_sent (unit : AccessUnit codec) : ∃ t,
    Run (cameraStep codec) (fun _ _ ↦ True) {}
      (.packet unit :: List.replicate unit.frames.length .write) t ∧
      t.nalQueue = [] ∧ t.pushed =
        unit.frames.flatMap fun x ↦ (fragments codec.hType x.1).map (·, x.2) := by
  have hpacket := congrArg Except.toOption (onPacket_data (s := {}) rfl unit)
  obtain ⟨t, hrun, hempty, hpushed⟩ := @exists_drained codec ⟨_, _, []⟩
  exact ⟨t, .cons trivial hpacket hrun, hempty, hpushed.trans (List.nil_append _)⟩

theorem unmarked_of_one_notMem {frame : Bytes} (h : 1 ∉ frame) : Unmarked frame :=
  fun _ hi ↦ h (List.mem_of_getElem? hi.2.2)

/-- A picture of `n + 1` bytes. -/
def picture (n : ℕ) : Bytes := 0x65 :: List.replicate n 2

theorem isNal_picture (n : ℕ) : IsNal (picture n) where
  ne_nil := List.cons_ne_nil _ _
  unmarked := by
    apply unmarked_of_one_notMem
    simp [picture, List.mem_replicate]
  last := by
    rw [picture, List.getLast?_cons, List.getLast?_replicate]
    split <;> decide

/-- A parameter set, a picture that takes three packets, and one whose last byte is lost. -/
def longFrames : AccessUnit .h264 where
  lead := []
  nals := [(true, [0x67, 1]), (false, picture 2999), (false, picture 2797)]
  pts := 40
  lead_unmarked := unmarked_nil
  lead_last := nofun
  nals_ne_nil := nofun
  isNal := List.forall_mem_cons.mpr ⟨⟨by decide, unmarked_of_short (by decide), by decide⟩,
    List.forall_mem_cons.mpr ⟨isNal_picture 2999,
      List.forall_mem_cons.mpr ⟨isNal_picture 2797, List.forall_mem_nil _⟩⟩⟩
  whole := List.forall_mem_cons.mpr ⟨fun _ ↦ rfl, List.forall_mem_cons.mpr ⟨fun _ ↦ rfl,
    List.forall_mem_cons.mpr ⟨fun _ ↦ rfl, List.forall_mem_nil _⟩⟩⟩

theorem received_frames_long : ∃ s,
    Run (cameraStep .h264) (fun _ _ ↦ True) {} [.packet longFrames, .write, .write, .write] s ∧
      s.pushed.length = 7 ∧ (s.pushed.foldl (Receiver.take .h264) {}).received =
        [([0x67, 1], 40), (picture 2999, 40), (picture 2796, 40)] := by
  obtain ⟨s, hrun, hempty, hpushed⟩ := exists_sent longFrames
  obtain ⟨hreceived, -⟩ := received_frames hrun
  refine ⟨s, hrun, ?_, ?_⟩
  · rw [hpushed]
    decide +kernel
  · rw [hempty] at hreceived
    rw [← List.append_nil (Receiver.received _)]
    apply hreceived.trans
    decide +kernel

end ZoneMinder.Rtsp
