import ZoneMinder.Lib.Words
import Mathlib.Data.List.Induction
import Mathlib.Logic.Function.Basic

namespace ZoneMinder.Rtsp

open Lib

def h264Marker : Bytes := [0, 0, 0, 1]

def h264ShortMarker : Bytes := [0, 0, 1]

inductive SplitFault
  | outOfBounds
  | unfinished
  deriving DecidableEq

section

variable (frame : Bytes)

/-- The loop of findMarker from some index on, for the rounds that are left. -/
def findMarkerFrom (i : ℕ) : ℕ → Option (ℕ × ℕ)
  | 0 => none
  | n + 1 =>
    if frame[i]? = some 0 ∧ frame[i + 1]? = some 0 ∧ frame[i + 2]? = some 1 then
      if i ≠ 0 ∧ frame[i - 1]? = some 0 then some (i - 1, h264Marker.length)
      else some (i, h264ShortMarker.length)
    else findMarkerFrom (i + 1) n

/-- Where the first marker is, and its length. -/
def findMarker : Option (ℕ × ℕ) :=
  if frame.length < 3 then none else findMarkerFrom frame 0 (frame.length - 2)

end

/-- A frame that was extracted, the byte it is told by, and what is left behind it. -/
structure Extracted where
  frameType : UInt8
  piece : Bytes
  rest : Bytes

/-- The type is read behind the marker, whether or not there is a byte. -/
def extractFrame (keepMarker : Bool) (frame : Bytes) : Except SplitFault (Option Extracted) :=
  match if frame.length ≥ 3 then findMarker frame else none with
  | none => .ok none
  | some (start, markerLength) =>
    match frame[start + markerLength]? with
    | none => .error .outOfBounds
    | some frameType =>
      let body := frame.drop (start + markerLength)
      let endFrame := if body.length > 3 then findMarker body else none
      let out := if keepMarker then frame.drop start else body
      let kept := if keepMarker then markerLength else 0
      let outsize := endFrame.elim out.length fun e ↦ kept + e.1
      .ok (some ⟨frameType, out.take outsize, out.drop outsize⟩)

inductive ParameterSet
  | vps | sps | pps
  deriving DecidableEq

/-- A source of H.264 or H.265 frames, with the parameter sets it has seen and those that it gave
to the server's own source, when there is one. -/
structure H26xSource where
  keepMarker : Bool := false
  sets : ParameterSet → Bytes := fun _ ↦ []
  attached : Bool := false
  given : List (ParameterSet × Bytes) := []

namespace H26xSource

def assign (set : Option ParameterSet) (piece : Bytes) (s : H26xSource) : H26xSource :=
  match set with
  | none => s
  | some set =>
    { s with
      sets := Function.update s.sets set piece
      given := if s.attached && !piece.isEmpty then s.given ++ [(set, piece)] else s.given }

end H26xSource

namespace H264

def parameterSet (frameType : UInt8) : Option ParameterSet :=
  if frameType &&& 0x1F = 7 then some .sps
  else if frameType &&& 0x1F = 8 then some .pps
  else none

/-- The loop of splitFrames, which ends when nothing is left. -/
def splitLoop (s : H26xSource) (frames : List Bytes) (frame : Bytes) :
    ℕ → Except SplitFault (List Bytes × ℕ × H26xSource)
  | 0 => .error .unfinished
  | n + 1 => do
    match ← extractFrame s.keepMarker frame with
    | none => return (frames, frame.length, s)
    | some x =>
      let s := s.assign (parameterSet x.frameType) x.piece
      if x.rest = [] then return (frames ++ [x.piece], 0, s)
      else splitLoop s (frames ++ [x.piece]) x.rest n

/-- The frames of a buffer, how many of its bytes are left, and the source. -/
def splitFrames (s : H26xSource) (frame : Bytes) :
    Except SplitFault (List Bytes × ℕ × H26xSource) := splitLoop s [] frame (frame.length + 1)

end H264

namespace H265

def parameterSet (frameType : UInt8) : Option ParameterSet :=
  if (frameType &&& 0x7E) >>> 1 = 32 then some .vps
  else if (frameType &&& 0x7E) >>> 1 = 33 then some .sps
  else if (frameType &&& 0x7E) >>> 1 = 34 then some .pps
  else none

/-- The loop of splitFrames, which ends when there is no marker. -/
def splitLoop (s : H26xSource) (frames : List Bytes) (frame : Bytes) :
    ℕ → Except SplitFault (List Bytes × ℕ × H26xSource)
  | 0 => .error .unfinished
  | n + 1 => do
    match ← extractFrame s.keepMarker frame with
    | none => return (frames, frame.length, s)
    | some x =>
      splitLoop (s.assign (parameterSet x.frameType) x.piece) (frames ++ [x.piece]) x.rest n

def splitFrames (s : H26xSource) (frame : Bytes) :
    Except SplitFault (List Bytes × ℕ × H26xSource) := splitLoop s [] frame (frame.length + 2)

end H265

variable {frame body x rest : Bytes} {i n start : ℕ}

/-- A start code at an index. -/
def StartCode (frame : Bytes) (i : ℕ) : Prop :=
  frame[i]? = some 0 ∧ frame[i + 1]? = some 0 ∧ frame[i + 2]? = some 1

instance (frame : Bytes) (i : ℕ) : Decidable (StartCode frame i) :=
  inferInstanceAs (Decidable (_ ∧ _))

def Unmarked (frame : Bytes) : Prop := ∀ i, ¬StartCode frame i

theorem StartCode.lt (h : StartCode frame i) : i + 2 < frame.length :=
  (List.getElem?_eq_some_iff.mp h.2.2).1

theorem findMarkerFrom_succ : findMarkerFrom frame i (n + 1) =
    if StartCode frame i then
      if i ≠ 0 ∧ frame[i - 1]? = some 0 then some (i - 1, h264Marker.length)
      else some (i, h264ShortMarker.length)
    else findMarkerFrom frame (i + 1) n := rfl

theorem findMarkerFrom_eq_none (h : ∀ j, i ≤ j → j < i + n → ¬StartCode frame j) :
    findMarkerFrom frame i n = none := by
  induction n generalizing i with
  | zero => rfl
  | succ n ih =>
    rw [findMarkerFrom_succ, if_neg (h i le_rfl (by omega))]
    exact ih fun j hj hlt ↦ h j (by omega) (by omega)

/-- The first start code from an index on decides. -/
theorem findMarkerFrom_eq_some {k : ℕ} (hk : StartCode frame k) (hle : i ≤ k) (hlt : k < i + n)
    (hfirst : ∀ j, i ≤ j → j < k → ¬StartCode frame j) :
    findMarkerFrom frame i n =
      if k ≠ 0 ∧ frame[k - 1]? = some 0 then some (k - 1, h264Marker.length)
      else some (k, h264ShortMarker.length) := by
  induction n generalizing i with
  | zero => omega
  | succ n ih =>
    rw [findMarkerFrom_succ]
    by_cases hik : i = k
    · subst hik
      exact if_pos hk
    · rw [if_neg (hfirst i le_rfl (by omega))]
      exact ih (by omega) (by omega) fun j hj hjk ↦ hfirst j (by omega) hjk

theorem findMarker_eq_none (h : Unmarked frame) : findMarker frame = none := by
  unfold findMarker
  split
  · rfl
  · exact findMarkerFrom_eq_none fun j _ _ ↦ h j

theorem findMarker_eq_some {k : ℕ} (hk : StartCode frame k)
    (hfirst : ∀ j < k, ¬StartCode frame j) :
    findMarker frame =
      if k ≠ 0 ∧ frame[k - 1]? = some 0 then some (k - 1, h264Marker.length)
      else some (k, h264ShortMarker.length) := by
  have hlt := hk.lt
  unfold findMarker
  rw [if_neg (by omega)]
  exact findMarkerFrom_eq_some hk (Nat.zero_le _) (by omega) fun j _ hj ↦ hfirst j hj

theorem exists_first (h : ¬Unmarked frame) :
    ∃ k, StartCode frame k ∧ ∀ j < k, ¬StartCode frame j := by
  unfold Unmarked at h
  push Not at h
  exact ⟨Nat.find h, Nat.find_spec h, fun j hj ↦ Nat.find_min h hj⟩

def marker (long : Bool) : Bytes := if long then h264Marker else h264ShortMarker

theorem unmarked_nil : Unmarked [] := fun _ h ↦ absurd h.lt (Nat.not_lt_zero _)

theorem StartCode.append (h : StartCode x i) (rest : Bytes) : StartCode (x ++ rest) i := by
  have hlt := h.lt
  unfold StartCode at *
  rw [List.getElem?_append_left (by omega), List.getElem?_append_left (by omega),
    List.getElem?_append_left (by omega)]
  exact h

/-- Bytes without a start code that zeros and a one follow have the first start code there. -/
theorem startCode_append {zeros : ℕ} (hx : Unmarked x) (hzeros : 2 ≤ zeros) (rest : Bytes) :
    StartCode (x ++ List.replicate zeros 0 ++ 1 :: rest) (x.length + zeros - 2) ∧
      ∀ j < x.length + zeros - 2, ¬StartCode (x ++ List.replicate zeros 0 ++ 1 :: rest) j := by
  have hzero (j : ℕ) (hj : x.length ≤ j) (hlt : j < x.length + zeros) :
      (x ++ List.replicate zeros 0 ++ 1 :: rest)[j]? = some (0 : UInt8) := by
    rw [List.getElem?_append_left (by simpa using hlt), List.getElem?_append_right hj,
      List.getElem?_replicate, if_pos (by omega)]
  have hone : (x ++ List.replicate zeros 0 ++ 1 :: rest)[x.length + zeros]? = some (1 : UInt8) := by
    rw [List.getElem?_append_right (by simp)]
    simp
  constructor
  · refine ⟨hzero _ (by omega) (by omega), hzero _ (by omega) (by omega), ?_⟩
    rw [show x.length + zeros - 2 + 2 = x.length + zeros by omega]
    exact hone
  · intro j hj hcode
    by_cases hin : j + 2 < x.length
    · apply hx j
      unfold StartCode at *
      rw [List.append_assoc, List.getElem?_append_left (by omega),
        List.getElem?_append_left (by omega), List.getElem?_append_left (by omega)] at hcode
      exact hcode
    · have hbyte := hcode.2.2
      rw [hzero (j + 2) (by omega) (by omega)] at hbyte
      contradiction

theorem findMarker_append {long : Bool} (hx : Unmarked x) (hlast : x.getLast? ≠ some 0) :
    findMarker (x ++ marker long ++ rest) = some (x.length, (marker long).length) := by
  cases long with
  | false =>
    have heq : x ++ marker false ++ rest = x ++ List.replicate 2 0 ++ 1 :: rest := by
      simp [marker, h264ShortMarker]
    obtain ⟨hcode, hfirst⟩ := startCode_append hx (le_refl 2) rest
    rw [heq, findMarker_eq_some hcode hfirst, if_neg]
    · rfl
    · rintro ⟨hne, hzero⟩
      rw [Nat.add_sub_cancel, List.append_assoc] at hzero
      rw [Nat.add_sub_cancel] at hne
      rw [List.getElem?_append_left (by omega), ← List.getLast?_eq_getElem?] at hzero
      exact hlast hzero
  | true =>
    have heq : x ++ marker true ++ rest = x ++ List.replicate 3 0 ++ 1 :: rest := by
      simp [marker, h264Marker]
    obtain ⟨hcode, hfirst⟩ := startCode_append hx (Nat.le_succ 2) rest
    rw [heq, findMarker_eq_some hcode hfirst, if_pos]
    · rfl
    · refine ⟨by omega, ?_⟩
      rw [show x.length + 3 - 2 - 1 = x.length by omega,
        List.getElem?_append_left (by simp), List.getElem?_append_right le_rfl]
      simp

/-- Frames behind their markers, as a camera sends them. -/
def annexB (nals : List (Bool × Bytes)) : Bytes := nals.flatMap fun nal ↦ marker nal.1 ++ nal.2

theorem annexB_cons {long : Bool} {nal : Bytes} {nals : List (Bool × Bytes)} :
    annexB ((long, nal) :: nals) = marker long ++ (nal ++ annexB nals) := by
  rw [annexB, List.flatMap_cons, List.append_assoc]
  rfl

/-- A frame as the standard has it: no start code inside, and no zero at its end. -/
structure IsNal (nal : Bytes) : Prop where
  ne_nil : nal ≠ []
  unmarked : Unmarked nal
  last : nal.getLast? ≠ some 0

theorem drop_of_getElem? {b : UInt8} (h : frame[i]? = some b) :
    frame.drop i = b :: frame.drop (i + 1) :=
  List.drop_eq_getElem?_toList_append.trans (by rw [h]; rfl)

theorem StartCode.drop (h : StartCode frame i) :
    frame.drop i = h264ShortMarker ++ frame.drop (i + 3) := by
  rw [drop_of_getElem? h.1, drop_of_getElem? h.2.1, drop_of_getElem? h.2.2]
  rfl

/-- What is in front of the first marker, and what behind. -/
theorem findMarker_split (h : ¬Unmarked frame) : ∃ lead long body,
    frame = lead ++ marker long ++ body ∧
      findMarker frame = some (lead.length, (marker long).length) ∧
      ∀ j, StartCode frame j → lead.length + (marker long).length ≤ j + 3 := by
  obtain ⟨k, hk, hfirst⟩ := exists_first h
  have hlt := hk.lt
  rw [findMarker_eq_some hk hfirst]
  split
  · next hlong =>
    obtain ⟨hne, hzero⟩ := hlong
    have hbefore : frame.drop (k - 1) = h264Marker ++ frame.drop (k + 3) := by
      rw [drop_of_getElem? hzero, Nat.sub_add_cancel (by omega), hk.drop]
      rfl
    refine ⟨frame.take (k - 1), true, frame.drop (k + 3), ?_, ?_, ?_⟩
    · rw [List.append_assoc, marker, if_pos rfl, ← hbefore, List.take_append_drop]
    · rw [List.length_take_of_le (by omega)]
      rfl
    · rw [List.length_take_of_le (by omega)]
      intro j hj
      have hle : k ≤ j := Nat.le_of_not_lt fun hlt ↦ hfirst j hlt hj
      change k - 1 + 4 ≤ j + 3
      omega
  · refine ⟨frame.take k, false, frame.drop (k + 3), ?_, ?_, ?_⟩
    · rw [List.append_assoc, marker, if_neg Bool.false_ne_true, ← hk.drop, List.take_append_drop]
    · rw [List.length_take_of_le (by omega)]
      rfl
    · rw [List.length_take_of_le (by omega)]
      exact fun j hj ↦ Nat.add_le_add_right (Nat.le_of_not_lt fun hlt ↦ hfirst j hlt hj) 3

theorem marker_length_le (long : Bool) : 3 ≤ (marker long).length := by
  cases long <;> decide

theorem unmarked_of_short (h : frame.length < 3) : Unmarked frame := by
  intro i hi
  have hlt := hi.lt
  omega

theorem extractFrame_unmarked {keepMarker : Bool} (h : Unmarked frame) :
    extractFrame keepMarker frame = .ok none := by
  unfold extractFrame
  rw [findMarker_eq_none h, ite_self]

section

variable {lead : Bytes} {long : Bool} {b : UInt8}

/-- The marker ends the buffer. -/
theorem extractFrame_nil (h : findMarker (lead ++ marker long) =
    some (lead.length, (marker long).length)) :
    extractFrame false (lead ++ marker long) = .error .outOfBounds := by
  have hlong := marker_length_le long
  unfold extractFrame
  rw [if_pos (by rw [List.length_append]; omega), h]
  dsimp only
  rw [List.getElem?_eq_none (by rw [List.length_append])]

theorem extractFrame_cons (h : findMarker (lead ++ marker long ++ b :: body) =
    some (lead.length, (marker long).length)) :
    extractFrame false (lead ++ marker long ++ b :: body) =
      .ok (some
        (match if (b :: body).length > 3 then findMarker (b :: body) else none with
        | none => ⟨b, b :: body, []⟩
        | some e => ⟨b, (b :: body).take e.1, (b :: body).drop e.1⟩)) := by
  have hlong := marker_length_le long
  have hlength : (lead ++ marker long).length = lead.length + (marker long).length :=
    List.length_append
  unfold extractFrame
  rw [if_pos (by rw [List.length_append]; omega), h]
  dsimp only
  rw [← hlength, List.getElem?_append_right le_rfl, Nat.sub_self, List.getElem?_cons_zero,
    List.drop_left]
  dsimp only
  rw [if_neg Bool.false_ne_true, if_neg Bool.false_ne_true]
  generalize (if (b :: body).length > 3 then findMarker (b :: body) else none) = found
  cases found with
  | none => rw [Option.elim_none, List.take_length, List.drop_length]
  | some e => rw [Option.elim_some, Nat.zero_add]

end

theorem findMarker_marker (long : Bool) (body : Bytes) :
    findMarker (marker long ++ body) = some (0, (marker long).length) :=
  findMarker_append (x := []) unmarked_nil nofun

theorem startCode_marker (long : Bool) (body : Bytes) :
    StartCode (marker long ++ body) ((marker long).length - 3) := by
  cases long <;> exact ⟨rfl, rfl, rfl⟩

theorem startCode_append_right {j : ℕ} :
    StartCode (x ++ rest) (x.length + j) ↔ StartCode rest j := by
  unfold StartCode
  rw [List.getElem?_append_right (by omega), List.getElem?_append_right (by omega),
    List.getElem?_append_right (by omega), Nat.add_sub_cancel_left, Nat.add_assoc,
    Nat.add_sub_cancel_left, Nat.add_assoc, Nat.add_sub_cancel_left]

/-- Two start codes do not overlap. -/
theorem StartCode.gap {i j : ℕ} (hi : StartCode frame i) (hj : StartCode frame j) (hlt : i < j) :
    i + 3 ≤ j := by
  by_contra hnot
  obtain rfl | rfl : j = i + 1 ∨ j = i + 2 := by omega
  · have := hi.2.2.symm.trans hj.2.1
    contradiction
  · have := hi.2.2.symm.trans hj.1
    contradiction

/-- A frame that is extracted ends the buffer, or it ends at the next marker. -/
structure Extracts (frame : Bytes) (e : Extracted) (lead : Bytes) (long : Bool) : Prop where
  frame_eq : frame = lead ++ marker long ++ (e.piece ++ e.rest)
  found : findMarker frame = some (lead.length, (marker long).length)
  first : ∀ j, StartCode frame j → lead.length + (marker long).length ≤ j + 3
  frameType_eq : e.frameType = e.piece.headD 0
  ends : (e.rest = [] ∧ e.piece ≠ [] ∧ (e.piece.length ≤ 3 ∨ Unmarked e.piece)) ∨
    ∃ long' body, e.rest = marker long' ++ body ∧ 3 < e.piece.length + e.rest.length ∧
      ∀ j, StartCode (e.piece ++ e.rest) j → e.piece.length + (marker long').length ≤ j + 3

theorem extractFrame_none (h : extractFrame false frame = .ok none) : Unmarked frame := by
  by_contra hmarked
  obtain ⟨lead, long, body, rfl, hfind, -⟩ := findMarker_split hmarked
  cases body with
  | nil =>
    rw [List.append_nil] at h hfind
    rw [extractFrame_nil hfind] at h
    cases h
  | cons b body =>
    rw [extractFrame_cons hfind] at h
    cases Except.ok.inj h

theorem extractFrame_error {fault : SplitFault} (h : extractFrame false frame = .error fault) :
    fault = .outOfBounds ∧ ∃ lead long, frame = lead ++ marker long ∧
      ∀ j, StartCode frame j → frame.length ≤ j + 3 := by
  by_cases hmarked : Unmarked frame
  · rw [extractFrame_unmarked hmarked] at h
    cases h
  · obtain ⟨lead, long, body, rfl, hfind, hfirst⟩ := findMarker_split hmarked
    cases body with
    | nil =>
      rw [List.append_nil] at h hfind hfirst ⊢
      rw [extractFrame_nil hfind] at h
      rw [← List.length_append] at hfirst
      exact ⟨(Except.error.inj h).symm, lead, long, rfl, hfirst⟩
    | cons b body =>
      rw [extractFrame_cons hfind] at h
      cases h

theorem extractFrame_some {e : Extracted} (h : extractFrame false frame = .ok (some e)) :
    ∃ lead long, Extracts frame e lead long := by
  by_cases hmarked : Unmarked frame
  · rw [extractFrame_unmarked hmarked] at h
    cases Except.ok.inj h
  · obtain ⟨lead, long, body, rfl, hfind, hfirst⟩ := findMarker_split hmarked
    cases body with
    | nil =>
      rw [List.append_nil] at h hfind
      rw [extractFrame_nil hfind] at h
      cases h
    | cons b body =>
      refine ⟨lead, long, ?_⟩
      rw [extractFrame_cons hfind] at h
      obtain rfl := Option.some.inj (Except.ok.inj h)
      by_cases hlt : (b :: body).length > 3
      · rw [if_pos hlt]
        by_cases hbody : Unmarked (b :: body)
        · rw [findMarker_eq_none hbody]
          exact ⟨by rw [List.append_nil], hfind, hfirst, rfl,
            .inl ⟨rfl, List.cons_ne_nil _ _, .inr hbody⟩⟩
        · obtain ⟨piece, long', after, heq, hnext, hfirst'⟩ := findMarker_split hbody
          rw [List.append_assoc] at heq
          rw [hnext, heq]
          dsimp only
          rw [List.take_left, List.drop_left]
          rw [heq] at hlt hfirst' hfind hfirst
          refine ⟨rfl, hfind, hfirst, ?_, .inr ⟨long', after, rfl, ?_, hfirst'⟩⟩
          · cases piece with
            | nil => cases long' <;> exact (List.cons.inj heq).1
            | cons => exact (List.cons.inj heq).1
          · rwa [List.length_append] at hlt
      · rw [if_neg hlt]
        exact ⟨by rw [List.append_nil], hfind, hfirst, rfl,
          .inl ⟨rfl, List.cons_ne_nil _ _, .inl (Nat.le_of_not_lt hlt)⟩⟩

theorem Extracts.rest_lt {e : Extracted} {lead : Bytes} {long : Bool}
    (h : Extracts frame e lead long) : e.rest.length < frame.length := by
  have hlong := marker_length_le long
  rw [h.frame_eq]
  simp only [List.length_append]
  omega

/-- The frames of a buffer, and how many bytes are left. -/
inductive Splits : Bytes → Except SplitFault (List Bytes × ℕ) → Prop
  | none {frame : Bytes} : extractFrame false frame = .ok none →
      Splits frame (.ok ([], frame.length))
  | error {frame : Bytes} {fault : SplitFault} : extractFrame false frame = .error fault →
      Splits frame (.error fault)
  | some {frame : Bytes} {e : Extracted} {r : Except SplitFault (List Bytes × ℕ)} :
      extractFrame false frame = .ok (some e) → Splits e.rest r →
      Splits frame (r.map fun r ↦ (e.piece :: r.1, r.2))

theorem exists_splits (frame : Bytes) : ∃ r, Splits frame r := by
  obtain ⟨n, hn⟩ : ∃ n, frame.length < n := ⟨_, Nat.lt_succ_self _⟩
  induction n generalizing frame with
  | zero => omega
  | succ n ih =>
    cases h : extractFrame false frame with
    | error fault => exact ⟨_, .error h⟩
    | ok found =>
      cases found with
      | none => exact ⟨_, .none h⟩
      | some e =>
        obtain ⟨lead, long, he⟩ := extractFrame_some h
        have hlt := he.rest_lt
        obtain ⟨r, hr⟩ := ih e.rest (by omega)
        exact ⟨_, .some h hr⟩

namespace H26xSource

/-- The source after some frames. -/
def assignAll (parameterSet : UInt8 → Option ParameterSet) (s : H26xSource) (pieces : List Bytes) :
    H26xSource :=
  pieces.foldl (fun s piece ↦ s.assign (parameterSet (piece.headD 0)) piece) s

theorem assign_keepMarker (s : H26xSource) (set : Option ParameterSet) (piece : Bytes) :
    (s.assign set piece).keepMarker = s.keepMarker := by
  cases set <;> rfl

theorem assignAll_keepMarker (parameterSet : UInt8 → Option ParameterSet) (pieces : List Bytes)
    (s : H26xSource) : (s.assignAll parameterSet pieces).keepMarker = s.keepMarker := by
  induction pieces generalizing s with
  | nil => rfl
  | cons piece pieces ih => exact (ih _).trans (assign_keepMarker _ _ _)

end H26xSource

variable {s : H26xSource} {frames : List Bytes} {fuel : ℕ}
  {r : Except SplitFault (List Bytes × ℕ)}

theorem h265_splitLoop (h : Splits frame r) (hs : s.keepMarker = false)
    (hfuel : frame.length < fuel) : H265.splitLoop s frames frame fuel =
      r.map fun r ↦ (frames ++ r.1, r.2, s.assignAll H265.parameterSet r.1) := by
  induction h generalizing s frames fuel with
  | none h =>
    obtain ⟨fuel, rfl⟩ := Nat.exists_eq_add_one_of_ne_zero (by omega : fuel ≠ 0)
    rw [H265.splitLoop, hs, h, Except.map, List.append_nil]
    rfl
  | error h =>
    obtain ⟨fuel, rfl⟩ := Nat.exists_eq_add_one_of_ne_zero (by omega : fuel ≠ 0)
    rw [H265.splitLoop, hs, h]
    rfl
  | @some frame e r h hrest ih =>
    obtain ⟨fuel, rfl⟩ := Nat.exists_eq_add_one_of_ne_zero (by omega : fuel ≠ 0)
    obtain ⟨lead, long, he⟩ := extractFrame_some h
    have hlt := he.rest_lt
    rw [H265.splitLoop, hs, h]
    change H265.splitLoop _ _ _ _ = _
    rw [ih ((H26xSource.assign_keepMarker _ _ _).trans hs) (by omega), he.frameType_eq]
    cases r with
    | error => rfl
    | ok r =>
      simp only [Except.map, List.append_assoc, List.cons_append, List.nil_append]
      rfl

theorem h264_splitLoop (h : Splits frame r) (hs : s.keepMarker = false)
    (hfuel : frame.length < fuel) : H264.splitLoop s frames frame fuel =
      r.map fun r ↦ (frames ++ r.1, r.2, s.assignAll H264.parameterSet r.1) := by
  induction h generalizing s frames fuel with
  | none h =>
    obtain ⟨fuel, rfl⟩ := Nat.exists_eq_add_one_of_ne_zero (by omega : fuel ≠ 0)
    rw [H264.splitLoop, hs, h, Except.map, List.append_nil]
    rfl
  | error h =>
    obtain ⟨fuel, rfl⟩ := Nat.exists_eq_add_one_of_ne_zero (by omega : fuel ≠ 0)
    rw [H264.splitLoop, hs, h]
    rfl
  | @some frame e r h hrest ih =>
    obtain ⟨fuel, rfl⟩ := Nat.exists_eq_add_one_of_ne_zero (by omega : fuel ≠ 0)
    obtain ⟨lead, long, he⟩ := extractFrame_some h
    have hlt := he.rest_lt
    rw [H264.splitLoop, hs, h]
    change (if e.rest = [] then _ else H264.splitLoop _ _ _ _) = _
    split
    · next hnil =>
      rw [hnil] at hrest
      have hnone : extractFrame false [] = .ok none := rfl
      cases hrest with
      | none => rw [he.frameType_eq]; rfl
      | error h' => rw [hnone] at h'; cases h'
      | some h' => rw [hnone] at h'; cases Except.ok.inj h'
    · rw [ih ((H26xSource.assign_keepMarker _ _ _).trans hs) (by omega), he.frameType_eq]
      cases r with
      | error => rfl
      | ok r =>
        simp only [Except.map, List.append_assoc, List.cons_append, List.nil_append]
        rfl

/-- What a source of either kind makes of a buffer. -/
theorem splitFrames_eq (hs : s.keepMarker = false) (h : Splits frame r) :
    (H264.splitFrames s frame =
      r.map fun r ↦ (r.1, r.2, s.assignAll H264.parameterSet r.1)) ∧
    H265.splitFrames s frame =
      r.map fun r ↦ (r.1, r.2, s.assignAll H265.parameterSet r.1) :=
  ⟨h264_splitLoop h hs (Nat.lt_succ_self _), h265_splitLoop h hs (by omega)⟩

/-- What a buffer's frames did to a source: the last parameter set of each kind stays, and the
server's own source was given all of them in order. -/
structure Assigned (parameterSet : UInt8 → Option ParameterSet) (pieces : List Bytes)
    (s s' : H26xSource) : Prop where
  sets (set : ParameterSet) : s'.sets set = ((pieces.filter fun piece ↦
    parameterSet (piece.headD 0) = some set).getLast?).getD (s.sets set)
  given : s'.given = if s.attached then s.given ++ pieces.filterMap fun piece ↦
    (parameterSet (piece.headD 0)).map (·, piece) else s.given
  keepMarker : s'.keepMarker = s.keepMarker
  attached : s'.attached = s.attached

theorem Assigned.cons {parameterSet : UInt8 → Option ParameterSet} {piece : Bytes}
    {pieces : List Bytes} {s s' : H26xSource} (hzero : parameterSet 0 = none)
    (h : Assigned parameterSet pieces (s.assign (parameterSet (piece.headD 0)) piece) s') :
    Assigned parameterSet (piece :: pieces) s s' := by
  obtain ⟨hsets, hgiven, hkeep, hattached⟩ := h
  cases hset : parameterSet (piece.headD 0) with
  | none =>
    rw [hset] at hsets hgiven hkeep hattached
    refine ⟨fun set ↦ ?_, ?_, hkeep, hattached⟩
    · rw [List.filter_cons_of_neg (by rw [hset]; exact of_decide_eq_true rfl)]
      exact hsets set
    · rw [List.filterMap_cons_none (by rw [hset]; rfl)]
      exact hgiven
  | some found =>
    rw [hset] at hsets hgiven hkeep hattached
    refine ⟨fun set ↦ ?_, ?_, hkeep, hattached⟩
    · by_cases heq : found = set
      · rw [List.filter_cons_of_pos (by rw [hset, heq]; exact decide_eq_true rfl),
          List.getLast?_cons, hsets set]
        simp only [H26xSource.assign, heq, Function.update_self, Option.getD_some]
      · rw [List.filter_cons_of_neg (by simpa only [hset, decide_eq_true_eq, Option.some.injEq]),
          hsets set]
        simp only [H26xSource.assign, Function.update_of_ne (Ne.symm heq)]
    · have hne : piece.isEmpty = false := by
        cases piece with
        | nil => rw [List.headD_nil, hzero] at hset; contradiction
        | cons => rfl
      rw [List.filterMap_cons_some (by rw [hset]; rfl), hgiven]
      simp only [H26xSource.assign, hne, Bool.not_false, Bool.and_true]
      split
      · rw [List.append_assoc]
        rfl
      · rfl

theorem assignAll_assigned {parameterSet : UInt8 → Option ParameterSet}
    (hzero : parameterSet 0 = none) (pieces : List Bytes) (s : H26xSource) :
    Assigned parameterSet pieces s (s.assignAll parameterSet pieces) := by
  induction pieces generalizing s with
  | nil => exact ⟨fun _ ↦ rfl, by simp [H26xSource.assignAll], rfl, rfl⟩
  | cons piece pieces ih => exact .cons hzero (ih _)

theorem h264_assigned (pieces : List Bytes) (s : H26xSource) :
    Assigned H264.parameterSet pieces s (s.assignAll H264.parameterSet pieces) :=
  assignAll_assigned (by decide) pieces s

theorem h265_assigned (pieces : List Bytes) (s : H26xSource) :
    Assigned H265.parameterSet pieces s (s.assignAll H265.parameterSet pieces) :=
  assignAll_assigned (by decide) pieces s

/-- A frame that is the last one, or in front of another. -/
theorem extractFrame_nal {lead nal : Bytes} (long : Bool) (hlead : Unmarked lead)
    (hlast : lead.getLast? ≠ some 0) (hnal : IsNal nal) (nals : List (Bool × Bytes)) :
    extractFrame false (lead ++ marker long ++ (nal ++ annexB nals)) =
      .ok (some ⟨nal.headD 0, nal, annexB nals⟩) := by
  obtain ⟨b, body, rfl⟩ := List.exists_cons_of_ne_nil hnal.ne_nil
  rw [List.cons_append, extractFrame_cons (findMarker_append hlead hlast), ← List.cons_append]
  cases nals with
  | nil =>
    have hnil : annexB [] = [] := rfl
    rw [hnil, List.append_nil, findMarker_eq_none hnal.unmarked, ite_self]
    rfl
  | cons next nals =>
    have hlong := marker_length_le next.1
    rw [annexB_cons, ← List.append_assoc, findMarker_append hnal.unmarked hnal.last, if_pos]
    · rw [List.append_assoc]
      dsimp only
      rw [List.take_left, List.drop_left]
      rfl
    · simp only [List.length_append, List.length_cons]
      omega

theorem splits_annexB {lead : Bytes} (nals : List (Bool × Bytes)) (hlead : Unmarked lead)
    (hlast : lead.getLast? ≠ some 0) (hnals : ∀ nal ∈ nals, IsNal nal.2) (hne : nals ≠ []) :
    Splits (lead ++ annexB nals) (.ok (nals.map Prod.snd, 0)) := by
  induction nals generalizing lead with
  | nil => contradiction
  | cons nal nals ih =>
    obtain ⟨long, nal⟩ := nal
    have hx := extractFrame_nal long hlead hlast (hnals _ List.mem_cons_self) nals
    rw [annexB_cons, ← List.append_assoc]
    cases nals with
    | nil => exact .some hx (.none rfl)
    | cons next nals =>
      exact .some hx (@ih [] unmarked_nil nofun
        (fun nal h ↦ hnals nal (List.mem_cons_of_mem _ h)) (List.cons_ne_nil _ _))

/-- Every frame of a buffer is found as it was sent, with what is in front of it, between them
and behind left out, and the source knows the parameter sets. -/
theorem splitFrames_annexB (hs : s.keepMarker = false) {lead : Bytes} (hlead : Unmarked lead)
    (hlast : lead.getLast? ≠ some 0) (nals : List (Bool × Bytes)) (hne : nals ≠ [])
    (hnals : ∀ nal ∈ nals, IsNal nal.2) :
    (∃ s', H264.splitFrames s (lead ++ annexB nals) = .ok (nals.map Prod.snd, 0, s') ∧
      Assigned H264.parameterSet (nals.map Prod.snd) s s') ∧
    ∃ s', H265.splitFrames s (lead ++ annexB nals) = .ok (nals.map Prod.snd, 0, s') ∧
      Assigned H265.parameterSet (nals.map Prod.snd) s s' := by
  obtain ⟨h264, h265⟩ := splitFrames_eq hs (splits_annexB nals hlead hlast hnals hne)
  exact ⟨⟨_, h264, h264_assigned _ _⟩, ⟨_, h265, h265_assigned _ _⟩⟩

/-- A parameter set and a picture. -/
theorem splitFrames_annexB_two :
    (∃ s', H264.splitFrames {} [7, 0, 0, 0, 1, 0x67, 1, 0, 0, 1, 0x65, 2] =
        .ok ([[0x67, 1], [0x65, 2]], 0, s') ∧
      Assigned H264.parameterSet [[0x67, 1], [0x65, 2]] {} s') ∧
    ∃ s', H265.splitFrames {} [7, 0, 0, 0, 1, 0x67, 1, 0, 0, 1, 0x65, 2] =
        .ok ([[0x67, 1], [0x65, 2]], 0, s') ∧
      Assigned H265.parameterSet [[0x67, 1], [0x65, 2]] {} s' :=
  @splitFrames_annexB {} rfl [7] (unmarked_of_short (by decide)) (by decide)
    [(true, [0x67, 1]), (false, [0x65, 2])] (List.cons_ne_nil _ _)
    (List.forall_mem_cons.mpr ⟨⟨by decide, unmarked_of_short (by decide), by decide⟩,
      List.forall_mem_cons.mpr ⟨⟨by decide, unmarked_of_short (by decide), by decide⟩,
        List.forall_mem_nil _⟩⟩)

/-- A short start code at the end that is not the one behind another. -/
def Dangling (frame : Bytes) : Prop :=
  h264ShortMarker <:+ frame ∧ ¬h264ShortMarker ++ h264ShortMarker <:+ frame

instance (frame : Bytes) : Decidable (Dangling frame) := inferInstanceAs (Decidable (_ ∧ _))

theorem shortMarker_suffix_iff :
    h264ShortMarker <:+ frame ↔ 3 ≤ frame.length ∧ StartCode frame (frame.length - 3) := by
  constructor
  · rintro ⟨front, rfl⟩
    refine ⟨by rw [List.length_append]; exact Nat.le_add_left _ _, ?_⟩
    rw [List.length_append]
    exact (startCode_append_right (j := 0)).mpr ⟨rfl, rfl, rfl⟩
  · rintro ⟨hle, hcode⟩
    have hdrop := hcode.drop
    rw [Nat.sub_add_cancel hle, List.drop_length, List.append_nil] at hdrop
    exact hdrop ▸ List.drop_suffix _ _

theorem shortMarkers_suffix_iff : h264ShortMarker ++ h264ShortMarker <:+ frame ↔
    6 ≤ frame.length ∧ StartCode frame (frame.length - 6) ∧
      StartCode frame (frame.length - 3) := by
  constructor
  · rintro ⟨front, rfl⟩
    refine ⟨by rw [List.length_append]; exact Nat.le_add_left _ _, ?_, ?_⟩
    · rw [List.length_append]
      exact (startCode_append_right (j := 0)).mpr ⟨rfl, rfl, rfl⟩
    · rw [List.length_append]
      exact (startCode_append_right (j := 3)).mpr ⟨rfl, rfl, rfl⟩
  · rintro ⟨hle, hfirst, hcode⟩
    have hdrop := hfirst.drop
    rw [show frame.length - 6 + 3 = frame.length - 3 by omega, hcode.drop,
      Nat.sub_add_cancel (by omega), List.drop_length, List.append_nil] at hdrop
    exact hdrop ▸ List.drop_suffix _ _

theorem dangling_iff : Dangling frame ↔ 3 ≤ frame.length ∧ StartCode frame (frame.length - 3) ∧
    ¬(6 ≤ frame.length ∧ StartCode frame (frame.length - 6)) := by
  unfold Dangling
  rw [shortMarker_suffix_iff, shortMarkers_suffix_iff]
  tauto

section

variable {e : Extracted} {lead : Bytes} {long : Bool}

theorem Extracts.startCode (h : Extracts frame e lead long) :
    StartCode frame (lead.length + (marker long).length - 3) := by
  have hlong := marker_length_le long
  rw [h.frame_eq, List.append_assoc, show lead.length + (marker long).length - 3 =
    lead.length + ((marker long).length - 3) by omega, startCode_append_right]
  exact startCode_marker _ _

theorem Extracts.startCode_iff (h : Extracts frame e lead long) {j : ℕ} :
    StartCode frame (lead.length + (marker long).length + j) ↔
      StartCode (e.piece ++ e.rest) j := by
  rw [h.frame_eq, ← List.length_append, startCode_append_right]

theorem Extracts.rest_startCode_iff (h : Extracts frame e lead long) {j : ℕ} :
    StartCode frame (lead.length + (marker long).length + e.piece.length + j) ↔
      StartCode e.rest j := by
  rw [Nat.add_assoc, h.startCode_iff, startCode_append_right]

theorem Extracts.length_eq (h : Extracts frame e lead long) : frame.length =
    lead.length + (marker long).length + e.piece.length + e.rest.length := by
  rw [h.frame_eq]
  simp only [List.length_append]
  omega

/-- What dangles is in what is left. -/
theorem Extracts.dangling_iff (h : Extracts frame e lead long) :
    Dangling frame ↔ Dangling e.rest := by
  have hlong := marker_length_le long
  have hlength := h.length_eq
  rw [Rtsp.dangling_iff, Rtsp.dangling_iff]
  obtain ⟨hrest, hne, hpiece⟩ | ⟨long', after, hrest, hlt, hnext⟩ := h.ends
  · have hpos := List.length_pos_iff.mpr hne
    rw [hrest, List.length_nil] at hlength
    rw [hrest]
    refine iff_of_false ?_ fun hnil ↦ absurd hnil.1 (by decide)
    rintro ⟨-, hlast, hnot⟩
    have hgap := h.startCode.gap hlast (by omega)
    obtain hshort | hunmarked := hpiece
    · have heq : frame.length - 6 = lead.length + (marker long).length - 3 := by omega
      exact hnot ⟨by omega, heq ▸ h.startCode⟩
    · refine hunmarked (frame.length - 3 - (lead.length + (marker long).length)) ?_
      rw [← List.append_nil e.piece, ← hrest, ← h.startCode_iff, Nat.add_sub_cancel' (by omega)]
      exact hlast
  · have hlong' := marker_length_le long'
    have hle : (marker long').length ≤ e.rest.length := by
      rw [hrest, List.length_append]
      exact Nat.le_add_right _ _
    have hlast : StartCode frame (frame.length - 3) ↔ StartCode e.rest (e.rest.length - 3) := by
      rw [← h.rest_startCode_iff]
      exact iff_of_eq (congrArg _ (by omega))
    refine and_congr (iff_of_true (by omega) (by omega)) (hlast.and (not_congr ?_))
    by_cases hsix : 6 ≤ e.rest.length
    · refine and_congr (iff_of_true (by omega) hsix) ?_
      rw [← h.rest_startCode_iff]
      exact iff_of_eq (congrArg _ (by omega))
    · refine iff_of_false ?_ fun hlong ↦ hsix hlong.1
      rintro ⟨hle, hcode⟩
      -- a start code that ends three bytes before the end is neither in the piece nor the marker
      have hfirst := h.first _ hcode
      by_cases hin : lead.length + (marker long).length ≤ frame.length - 6
      · obtain ⟨j, hj⟩ := Nat.exists_eq_add_of_le hin
        rw [hj, h.startCode_iff] at hcode
        have hbeyond := hnext j hcode
        omega
      · have hgap := h.startCode.gap hcode
        omega

end

theorem Splits.error_iff (h : Splits frame r) :
    (r = .error .outOfBounds ∧ Dangling frame) ∨ (∃ found, r = .ok found) ∧ ¬Dangling frame := by
  induction h with
  | none h =>
    refine .inr ⟨⟨_, rfl⟩, fun hdangling ↦ ?_⟩
    exact extractFrame_none h _ (dangling_iff.mp hdangling).2.1
  | @error frame fault h =>
    obtain ⟨rfl, lead, long, heq, hfirst⟩ := extractFrame_error h
    have hlong := marker_length_le long
    have hlength : frame.length = lead.length + (marker long).length := by
      rw [heq, List.length_append]
    refine .inl ⟨rfl, dangling_iff.mpr ⟨by omega, ?_, ?_⟩⟩
    · have hcode := (startCode_append_right (x := lead)).mpr (startCode_marker long [])
      rw [List.append_nil, ← heq] at hcode
      rw [show frame.length - 3 = lead.length + ((marker long).length - 3) by omega]
      exact hcode
    · rintro ⟨hle, hcode⟩
      have hbeyond := hfirst _ hcode
      omega
  | some h _ ih =>
    obtain ⟨lead, long, he⟩ := extractFrame_some h
    rw [he.dangling_iff]
    obtain ⟨rfl, hdangling⟩ | ⟨⟨found, rfl⟩, hdangling⟩ := ih
    · exact .inl ⟨rfl, hdangling⟩
    · exact .inr ⟨⟨_, rfl⟩, hdangling⟩

/-- The frames are the whole buffer but what is in front of the first marker. -/
theorem Splits.lossless {pieces : List Bytes} {left : ℕ} (h : Splits frame r)
    (hr : r = .ok (pieces, left)) : ∃ lead nals, frame = lead ++ annexB nals ∧ Unmarked lead ∧
      lead.length = (findMarker frame).elim frame.length Prod.fst ∧ nals.map Prod.snd = pieces ∧
      left = if pieces = [] then frame.length else 0 := by
  induction h generalizing pieces left with
  | @none frame h =>
    obtain ⟨rfl, rfl⟩ := Prod.mk.inj (Except.ok.inj hr)
    have hunmarked := extractFrame_none h
    refine ⟨frame, [], (List.append_nil _).symm, hunmarked, ?_, rfl, rfl⟩
    rw [findMarker_eq_none hunmarked]
    rfl
  | error => cases hr
  | @some frame e r h hrest ih =>
    obtain ⟨lead, long, he⟩ := extractFrame_some h
    cases r with
    | error => cases hr
    | ok r =>
      obtain ⟨rest, left'⟩ := r
      obtain ⟨rfl, rfl⟩ := Prod.mk.inj (Except.ok.inj hr)
      obtain ⟨lead', nals, heq, -, hlength, hmap, hleft⟩ := ih rfl
      have hunmarked : Unmarked lead := by
        intro j hj
        have hlong := marker_length_le long
        have hlt := hj.lt
        have hcode := hj.append (marker long ++ (e.piece ++ e.rest))
        rw [← List.append_assoc, ← he.frame_eq] at hcode
        have hfirst := he.first j hcode
        omega
      have hnil : lead' = [] := by
        rw [← List.length_eq_zero_iff, hlength]
        obtain ⟨hnil, -, -⟩ | ⟨long', after, hmarker, -, -⟩ := he.ends
        · rw [hnil]
          rfl
        · rw [hmarker, findMarker_marker]
          rfl
      rw [hnil, List.nil_append] at heq
      refine ⟨lead, (long, e.piece) :: nals, ?_, hunmarked, ?_, ?_, ?_⟩
      · rw [annexB_cons, ← List.append_assoc, ← heq]
        exact he.frame_eq
      · rw [he.found]
        rfl
      · rw [List.map_cons, hmap]
      · rw [if_neg (List.cons_ne_nil _ _), hleft]
        split
        · next hrest =>
          rw [← hmap, List.map_eq_nil_iff] at hrest
          rw [heq, hrest]
          rfl
        · rfl

/-- Whatever a buffer holds, all of it behind the first marker goes into the frames, in order,
unless a marker ends it: then the type of a frame is read behind the end. -/
theorem splitFrames_lossless (hs : s.keepMarker = false) (frame : Bytes) :
    (Dangling frame ∧ H264.splitFrames s frame = .error .outOfBounds ∧
      H265.splitFrames s frame = .error .outOfBounds) ∨
    ¬Dangling frame ∧ ∃ lead nals, frame = lead ++ annexB nals ∧ Unmarked lead ∧
      (∃ s', H264.splitFrames s frame =
          .ok (nals.map Prod.snd, if nals = [] then frame.length else 0, s') ∧
        Assigned H264.parameterSet (nals.map Prod.snd) s s') ∧
      ∃ s', H265.splitFrames s frame =
          .ok (nals.map Prod.snd, if nals = [] then frame.length else 0, s') ∧
        Assigned H265.parameterSet (nals.map Prod.snd) s s' := by
  obtain ⟨r, hsplits⟩ := exists_splits frame
  obtain ⟨h264, h265⟩ := splitFrames_eq hs hsplits
  obtain ⟨rfl, hdangling⟩ | ⟨⟨⟨pieces, left⟩, rfl⟩, hdangling⟩ := hsplits.error_iff
  · exact .inl ⟨hdangling, h264, h265⟩
  · obtain ⟨lead, nals, heq, hlead, -, rfl, hleft⟩ := hsplits.lossless rfl
    rw [if_congr List.map_eq_nil_iff rfl rfl] at hleft
    subst hleft
    exact .inr ⟨hdangling, lead, nals, heq, hlead, ⟨_, h264, h264_assigned _ _⟩,
      ⟨_, h265, h265_assigned _ _⟩⟩

theorem splitFrames_lossless_dangling :
    H264.splitFrames {} [0, 0, 0, 1, 0x65, 2, 0, 0, 1] = .error .outOfBounds :=
  have h := splitFrames_lossless (s := {}) rfl [0, 0, 0, 1, 0x65, 2, 0, 0, 1]
  (h.resolve_right fun h ↦ h.1 (by decide)).2.1

end ZoneMinder.Rtsp
