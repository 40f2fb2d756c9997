import ZoneMinder.Lib.Words
import Mathlib.Data.List.Basic

namespace ZoneMinder.Rtsp.Av1

open Lib

inductive ObuFault
  | undefinedShift
  | unfinished
  deriving DecidableEq

/-- The loop of parseLEB128. A shift by 32 or more, or beyond 32 bits, is undefined. -/
def parseLEB128From (i value : ℕ) : Bytes → Option (ℕ × ℕ)
  | [] => some (0, value)
  | byte :: rest =>
    let bits := (byte &&& 0x7F).toNat <<< (7 * i)
    if 8 ≤ i then some (0, value)
    else if 32 ≤ 7 * i ∨ 2 ^ 32 ≤ bits then none
    else if byte &&& 0x80 = 0 then some (1, value ||| bits)
    else (parseLEB128From (i + 1) (value ||| bits) rest).map fun (n, v) ↦ (n + 1, v)

/-- How many bytes were read, and the value. -/
def parseLEB128 (data : Bytes) : Option (ℕ × ℕ) := parseLEB128From 0 0 data

structure ObuHeader where
  size : ℕ
  obuType : UInt8
  hasSize : Bool

def parseOBUHeader : Bytes → Option ObuHeader
  | [] => none
  | header :: rest =>
    if header &&& 0x80 ≠ 0 then none
    else
      let hasExtension := (header >>> 2) &&& 0x01 ≠ 0
      if hasExtension ∧ rest = [] then none
      else some {
        size := if hasExtension then 2 else 1
        obuType := (header >>> 3) &&& 0x0F
        hasSize := (header >>> 1) &&& 0x01 ≠ 0 }

/-- The OBU at the front of a buffer, and what is left behind it. -/
def extractFrame (frame : Bytes) : Except ObuFault (Option (Bytes × Bytes)) :=
  match parseOBUHeader frame with
  | none => .ok none
  | some header =>
    if header.hasSize = false then .ok (some (frame, []))
    else if frame.length < header.size + 1 then .ok none
    else
      match parseLEB128 (frame.drop header.size) with
      | none => .error .undefinedShift
      | some (lebSize, lebValue) =>
        let obuSize := header.size + lebSize + lebValue
        if lebSize = 0 ∨ frame.length < obuSize then .ok none
        else .ok (some (frame.take obuSize, frame.drop obuSize))

/-- The last sequence header, and what the server's own source, when there is one, was given. -/
structure Av1Source where
  sequenceHeader : Bytes := []
  attached : Bool := false
  given : List Bytes := []

/-- What splitFrames does with an OBU. -/
def Av1Source.note (buffer : Bytes) (s : Av1Source) : Except ObuFault Av1Source :=
  match parseOBUHeader buffer with
  | none => .ok s
  | some header =>
    if header.obuType ≠ 1 then .ok s
    else
      let s := { s with sequenceHeader := buffer }
      if s.attached = false then .ok s
      else
        match if header.hasSize then parseLEB128 (buffer.drop header.size) else some (0, 0) with
        | none => .error .undefinedShift
        | some (lebSize, _) =>
          let payload := buffer.drop (header.size + lebSize)
          .ok (if payload = [] then s else { s with given := s.given ++ [payload] })

/-- The loop of splitFrames, which ends when nothing is left. -/
def splitLoop (s : Av1Source) (frames : List Bytes) (frame : Bytes) :
    ℕ → Except ObuFault (List Bytes × ℕ × Av1Source)
  | 0 => .error .unfinished
  | n + 1 => do
    match ← extractFrame frame with
    | none => return (frames, frame.length, s)
    | some (buffer, rest) =>
      let s ← s.note buffer
      if rest = [] then return (frames ++ [buffer], 0, s)
      else splitLoop s (frames ++ [buffer]) rest n

/-- The OBUs of a buffer, how many of its bytes are left, and the source. -/
def splitFrames (s : Av1Source) (frame : Bytes) : Except ObuFault (List Bytes × ℕ × Av1Source) :=
  splitLoop s [] frame (frame.length + 1)

/-- The bytes that stand for a number, seven bits each, from the lowest on; a number has more than
one such form. -/
inductive Leb128 : ℕ → Bytes → Prop
  | last {b : ℕ} (h : b < 128) : Leb128 b [UInt8.ofNat b]
  | more {b n : ℕ} {bytes : Bytes} (h : b < 128) :
      Leb128 n bytes → Leb128 (b + 128 * n) (UInt8.ofNat (b + 128) :: bytes)

/-- An open bitstream unit. One without a size goes to the end of the buffer. -/
structure Obu where
  obuType : Fin 16
  extension : Option UInt8
  reserved : Bool
  size : Option Bytes
  payload : Bytes
  small : payload.length < 2 ^ 32
  sized : ∀ bytes ∈ size, Leb128 payload.length bytes ∧ bytes.length ≤ 5

namespace Obu

def headerByte (obuType : Fin 16) (extension size reserved : Bool) : UInt8 :=
  UInt8.ofNat (8 * obuType + 4 * extension.toNat + 2 * size.toNat + reserved.toNat)

def encode (o : Obu) : Bytes :=
  headerByte o.obuType o.extension.isSome o.size.isSome o.reserved ::
    (o.extension.toList ++ o.size.getD [] ++ o.payload)

/-- What an OBU leaves in the source. -/
def keep (o : Obu) (s : Av1Source) : Av1Source :=
  if o.obuType ≠ 1 then s
  else
    { s with
      sequenceHeader := o.encode
      given := if s.attached = false ∨ o.payload = [] then s.given else s.given ++ [o.payload] }

end Obu

variable {frame buffer rest bytes : Bytes} {value v i k w n : ℕ} {s s' : Av1Source} {o : Obu}

theorem low_bits {b : ℕ} (h : b < 128) : (UInt8.ofNat b &&& 0x7F).toNat = b ∧
    UInt8.ofNat b &&& 0x80 = 0 ∧ (UInt8.ofNat (b + 128) &&& 0x7F).toNat = b ∧
    UInt8.ofNat (b + 128) &&& 0x80 ≠ 0 := by
  have hall : ∀ b : Fin 128, (UInt8.ofNat b &&& 0x7F).toNat = b ∧
      UInt8.ofNat b &&& 0x80 = 0 ∧ (UInt8.ofNat (b + 128) &&& 0x7F).toNat = b ∧
      UInt8.ofNat (b + 128) &&& 0x80 ≠ 0 := by decide +kernel
  exact hall ⟨b, h⟩

/-- One round of the loop. -/
theorem parse_round {byte : UInt8} {b : ℕ} (hbyte : (byte &&& 0x7F).toNat = b) (hi : i ≤ 4)
    (hvalue : value < 2 ^ (7 * i)) (hbits : 2 ^ (7 * i) * b < 2 ^ 32) :
    parseLEB128From i value (byte :: rest) =
      if byte &&& 0x80 = 0 then some (1, value + 2 ^ (7 * i) * b)
      else
        (parseLEB128From (i + 1) (value + 2 ^ (7 * i) * b) rest).map fun (n, v) ↦ (n + 1, v) := by
  rw [parseLEB128From, hbyte]
  dsimp only
  rw [if_neg (by omega), or_shiftLeft _ _ _ hvalue, if_neg]
  rw [Nat.shiftLeft_eq, Nat.mul_comm b]
  omega

theorem Leb128.parse (h : Leb128 v bytes) (hi : i + bytes.length ≤ 5)
    (hvalue : value < 2 ^ (7 * i)) (hv : value + 2 ^ (7 * i) * v < 2 ^ 32) :
    parseLEB128From i value (bytes ++ rest) = some (bytes.length, value + 2 ^ (7 * i) * v) := by
  induction h generalizing i value with
  | last hb =>
    obtain ⟨hlow, hend, -⟩ := low_bits hb
    rw [List.length_singleton] at hi
    rw [List.cons_append, parse_round hlow (by omega) hvalue (by omega), if_pos hend]
    rfl
  | @more b n bytes hb h ih =>
    obtain ⟨-, -, hlow, hmore⟩ := low_bits hb
    rw [List.length_cons] at hi
    have hpow : 2 ^ (7 * (i + 1)) = 2 ^ (7 * i) * 128 := by rw [Nat.mul_add, Nat.pow_add]
    have hsum : value + 2 ^ (7 * i) * (b + 128 * n) =
        value + 2 ^ (7 * i) * b + 2 ^ (7 * (i + 1)) * n := by
      rw [hpow, Nat.mul_add, Nat.mul_assoc, Nat.add_assoc]
    have hb' : 2 ^ (7 * i) * (b + 1) ≤ 2 ^ (7 * i) * 128 := Nat.mul_le_mul_left _ hb
    rw [Nat.mul_succ] at hb'
    rw [hsum] at hv ⊢
    rw [List.cons_append, parse_round hlow (by omega) hvalue (by omega), if_neg hmore,
      ih (by omega) (by omega) hv]
    rfl

theorem Leb128.ne_nil (h : Leb128 v bytes) : bytes ≠ [] := by
  cases h <;> exact List.cons_ne_nil _ _

/-- What is read of a size does not depend on what comes behind it. -/
theorem parse_take (h : parseLEB128From i value bytes = some (k, w)) (hk : k ≤ n) :
    k ≤ bytes.length ∧ parseLEB128From i value (bytes.take n) = some (k, w) := by
  induction bytes generalizing i value k n with
  | nil =>
    obtain ⟨rfl, rfl⟩ := Prod.mk.inj (Option.some.inj h)
    exact ⟨Nat.zero_le _, by rw [List.take_nil]; rfl⟩
  | cons byte bytes ih =>
    have hround := h
    rw [parseLEB128From] at hround
    dsimp only at hround
    split at hround
    · next hlast =>
      obtain ⟨rfl, rfl⟩ := Prod.mk.inj (Option.some.inj hround)
      refine ⟨Nat.zero_le _, ?_⟩
      cases n with
      | zero => rfl
      | succ n => rw [List.take_succ_cons, parseLEB128From, if_pos hlast]
    · next hmore =>
      split at hround
      · contradiction
      · next hdefined =>
        split at hround
        · next hend =>
          obtain ⟨rfl, rfl⟩ := Prod.mk.inj (Option.some.inj hround)
          obtain ⟨n, rfl⟩ := Nat.exists_eq_succ_of_ne_zero (Nat.one_le_iff_ne_zero.mp hk)
          refine ⟨Nat.succ_pos _, ?_⟩
          rw [List.take_succ_cons, parseLEB128From]
          dsimp only
          rw [if_neg hmore, if_neg hdefined, if_pos hend]
        · next hnext =>
          obtain ⟨⟨k', w'⟩, hrest, hpair⟩ := Option.map_eq_some_iff.mp hround
          obtain ⟨rfl, rfl⟩ := Prod.mk.inj hpair
          obtain ⟨n, rfl⟩ := Nat.exists_eq_succ_of_ne_zero (by omega : n ≠ 0)
          obtain ⟨hlength, htake⟩ := ih hrest (Nat.le_of_succ_le_succ hk)
          refine ⟨Nat.succ_le_succ hlength, ?_⟩
          rw [List.take_succ_cons, parseLEB128From]
          dsimp only
          rw [if_neg hmore, if_neg hdefined, if_neg hnext, htake]
          rfl

theorem parseOBUHeader_take {header : ObuHeader} (h : parseOBUHeader frame = some header)
    (hn : header.size ≤ n) : 0 < header.size ∧ parseOBUHeader (frame.take n) = some header := by
  cases frame with
  | nil => contradiction
  | cons byte bytes =>
    rw [parseOBUHeader] at h
    split at h
    · contradiction
    · next hvalid =>
      dsimp only at h
      split at h
      · contradiction
      · next hroom =>
        obtain rfl := Option.some.inj h
        dsimp only at hn ⊢
        have hpos : 0 < if (byte >>> 2) &&& 0x01 ≠ 0 then 2 else 1 := by split <;> omega
        obtain ⟨n, rfl⟩ := Nat.exists_eq_succ_of_ne_zero (by omega : n ≠ 0)
        refine ⟨hpos, ?_⟩
        rw [List.take_succ_cons, parseOBUHeader, if_neg hvalid]
        dsimp only
        rw [if_neg]
        rintro ⟨hextension, hnil⟩
        rw [if_pos hextension] at hn
        rcases List.take_eq_nil_iff.mp hnil with hzero | hbytes
        · omega
        · exact hroom ⟨hextension, hbytes⟩

theorem extractFrame_unsized {header : ObuHeader} (hheader : parseOBUHeader frame = some header)
    (hsize : header.hasSize = false) : extractFrame frame = .ok (some (frame, [])) := by
  unfold extractFrame
  rw [hheader]
  exact if_pos hsize

theorem extractFrame_sized {header : ObuHeader} (hheader : parseOBUHeader frame = some header)
    (hsize : header.hasSize = true) (hleb : parseLEB128 (frame.drop header.size) = some (k, w))
    (hk : k ≠ 0) (hfits : header.size + k + w ≤ frame.length) :
    extractFrame frame =
      .ok (some (frame.take (header.size + k + w), frame.drop (header.size + k + w))) := by
  unfold extractFrame
  rw [hheader]
  dsimp only
  rw [hsize, if_neg Bool.noConfusion, if_neg (by omega), hleb]
  dsimp only
  rw [if_neg (by omega)]

theorem extractFrame_cases (h : extractFrame frame = .ok (some (buffer, rest))) :
    ∃ header, parseOBUHeader frame = some header ∧
      (header.hasSize = false ∧ buffer = frame ∧ rest = [] ∨
        header.hasSize = true ∧ ∃ k w, parseLEB128 (frame.drop header.size) = some (k, w) ∧
          k ≠ 0 ∧ header.size + k + w ≤ frame.length ∧
          buffer = frame.take (header.size + k + w) ∧
          rest = frame.drop (header.size + k + w)) := by
  unfold extractFrame at h
  split at h
  · exact absurd (Except.ok.inj h) nofun
  · next header hheader =>
    refine ⟨header, hheader, ?_⟩
    split at h
    · next hsize =>
      obtain ⟨rfl, rfl⟩ := Prod.mk.inj (Option.some.inj (Except.ok.inj h))
      exact .inl ⟨hsize, rfl, rfl⟩
    · next hsize =>
      split at h
      · exact absurd (Except.ok.inj h) nofun
      · split at h
        · contradiction
        · next k w hleb =>
          dsimp only at h
          split at h
          · exact absurd (Except.ok.inj h) nofun
          · next hfits =>
            obtain ⟨hk, hlength⟩ := not_or.mp hfits
            obtain ⟨rfl, rfl⟩ := Prod.mk.inj (Option.some.inj (Except.ok.inj h))
            exact .inr ⟨Bool.not_eq_false _ ▸ hsize, k, w, hleb, hk, not_lt.mp hlength, rfl, rfl⟩

/-- A piece that is an OBU as it stands. -/
def Whole (buffer : Bytes) : Prop := extractFrame buffer = .ok (some (buffer, []))

theorem extractFrame_split (h : extractFrame frame = .ok (some (buffer, rest))) :
    frame = buffer ++ rest ∧ buffer ≠ [] ∧ Whole buffer := by
  obtain ⟨header, hheader, ⟨hsize, rfl, rfl⟩ | ⟨hsize, k, w, hleb, hk, hfits, rfl, rfl⟩⟩ :=
    extractFrame_cases h
  · refine ⟨(List.append_nil _).symm, ?_, extractFrame_unsized hheader hsize⟩
    rintro rfl
    contradiction
  · obtain ⟨hpos, hheader'⟩ := parseOBUHeader_take (n := header.size + k + w) hheader (by omega)
    have hlength : (frame.take (header.size + k + w)).length = header.size + k + w :=
      List.length_take_of_le hfits
    have hdrop : (frame.take (header.size + k + w)).drop header.size =
        (frame.drop header.size).take (k + w) := by
      rw [List.drop_take]
      congr 1
      omega
    have hleb' := (parse_take hleb (Nat.le_add_right k w)).2
    rw [← hdrop] at hleb'
    refine ⟨(List.take_append_drop _ _).symm, ?_, ?_⟩
    · apply List.ne_nil_of_length_pos
      omega
    · have hwhole := extractFrame_sized hheader' hsize hleb' hk hlength.ge
      rwa [List.take_of_length_le hlength.le, List.drop_of_length_le hlength.le] at hwhole

/-- A size that goes on for more than five bytes, or does not fit into 32 bits. -/
def Overlong (data : Bytes) : Prop :=
  ∃ a b c d e rest, data = a :: b :: c :: d :: e :: rest ∧
    a &&& 0x80 ≠ 0 ∧ b &&& 0x80 ≠ 0 ∧ c &&& 0x80 ≠ 0 ∧ d &&& 0x80 ≠ 0 ∧
    (16 ≤ (e &&& 0x7F).toNat ∨ e &&& 0x80 ≠ 0 ∧ rest ≠ [])

theorem low_bits_lt (byte : UInt8) : (byte &&& 0x7F).toNat < 128 :=
  byte_induction (motive := fun byte ↦ (byte &&& 0x7F).toNat < 128) (by decide +kernel) byte

theorem parse_early (hi : i ≤ 3) (byte : UInt8) : parseLEB128From i value (byte :: rest) = none ↔
    byte &&& 0x80 ≠ 0 ∧
      parseLEB128From (i + 1) (value ||| (byte &&& 0x7F).toNat <<< (7 * i)) rest = none := by
  have hlow := low_bits_lt byte
  have hbits : (byte &&& 0x7F).toNat <<< (7 * i) < 2 ^ 32 := by
    rw [Nat.shiftLeft_eq]
    have hpow : 2 ^ (7 * i) ≤ 2 ^ 21 := Nat.pow_le_pow_right (by decide) (by omega)
    calc (byte &&& 0x7F).toNat * 2 ^ (7 * i) ≤ 127 * 2 ^ 21 := Nat.mul_le_mul (by omega) hpow
      _ < 2 ^ 32 := by decide
  rw [parseLEB128From]
  dsimp only
  rw [if_neg (by omega), if_neg (by omega)]
  split
  · next hend => exact iff_of_false nofun fun hmore ↦ hmore.1 hend
  · next hmore => rw [Option.map_eq_none_iff, and_iff_right hmore]

theorem parse_fifth (byte : UInt8) : parseLEB128From 4 value (byte :: rest) = none ↔
    16 ≤ (byte &&& 0x7F).toNat ∨ byte &&& 0x80 ≠ 0 ∧ rest ≠ [] := by
  have hbits : 2 ^ 32 ≤ (byte &&& 0x7F).toNat <<< (7 * 4) ↔ 16 ≤ (byte &&& 0x7F).toNat := by
    rw [Nat.shiftLeft_eq]
    omega
  rw [parseLEB128From]
  dsimp only
  rw [if_neg (by decide)]
  by_cases hlarge : 16 ≤ (byte &&& 0x7F).toNat
  · rw [if_pos (.inr (hbits.mpr hlarge))]
    exact iff_of_true rfl (.inl hlarge)
  · rw [if_neg (by rw [hbits]; omega), or_iff_right hlarge]
    split
    · next hend => exact iff_of_false nofun fun hmore ↦ hmore.1 hend
    · next hmore =>
      rw [Option.map_eq_none_iff, and_iff_right hmore]
      cases rest with
      | nil => exact iff_of_false nofun fun hne ↦ hne rfl
      | cons byte rest => exact iff_of_true rfl (List.cons_ne_nil _ _)

theorem parseLEB128_none_iff (data : Bytes) : parseLEB128 data = none ↔ Overlong data := by
  have hshort (i value : ℕ) : parseLEB128From i value [] ≠ none := nofun
  constructor
  · intro h
    cases data with
    | nil => exact absurd h (hshort _ _)
    | cons a data =>
      obtain ⟨ha, h⟩ := (parse_early (by decide) a).mp h
      cases data with
      | nil => exact absurd h (hshort _ _)
      | cons b data =>
        obtain ⟨hb, h⟩ := (parse_early (by decide) b).mp h
        cases data with
        | nil => exact absurd h (hshort _ _)
        | cons c data =>
          obtain ⟨hc, h⟩ := (parse_early (by decide) c).mp h
          cases data with
          | nil => exact absurd h (hshort _ _)
          | cons d data =>
            obtain ⟨hd, h⟩ := (parse_early (by decide) d).mp h
            cases data with
            | nil => exact absurd h (hshort _ _)
            | cons e rest =>
              exact ⟨a, b, c, d, e, rest, rfl, ha, hb, hc, hd, (parse_fifth e).mp h⟩
  · rintro ⟨a, b, c, d, e, rest, rfl, ha, hb, hc, hd, he⟩
    refine (parse_early (by decide) a).mpr ⟨ha, (parse_early (by decide) b).mpr ⟨hb, ?_⟩⟩
    refine (parse_early (by decide) c).mpr ⟨hc, (parse_early (by decide) d).mpr ⟨hd, ?_⟩⟩
    exact (parse_fifth e).mpr he

theorem extractFrame_fault {fault : ObuFault} (h : extractFrame frame = .error fault) :
    fault = .undefinedShift ∧ ∃ header, parseOBUHeader frame = some header ∧
      header.hasSize = true ∧ Overlong (frame.drop header.size) := by
  unfold extractFrame at h
  split at h
  · contradiction
  · next header hheader =>
    split at h
    · contradiction
    · next hsize =>
      split at h
      · contradiction
      · split at h
        · next hleb =>
          exact ⟨(Except.error.inj h).symm, header, hheader, Bool.not_eq_false _ ▸ hsize,
            (parseLEB128_none_iff _).mp hleb⟩
        · dsimp only at h
          split at h <;> contradiction

theorem note_whole (s : Av1Source) (h : Whole buffer) : ∃ s', s.note buffer = .ok s' := by
  obtain ⟨header, hheader, hcases⟩ := extractFrame_cases h
  have hleb : ∃ p, (if header.hasSize then parseLEB128 (buffer.drop header.size)
      else some (0, 0)) = some p := by
    rcases hcases with ⟨hsize, -⟩ | ⟨hsize, k, w, hleb, -⟩
    · exact ⟨(0, 0), by rw [hsize]; rfl⟩
    · exact ⟨(k, w), by rw [hsize]; exact hleb⟩
  obtain ⟨p, hp⟩ := hleb
  unfold Av1Source.note
  rw [hheader]
  dsimp only
  split
  · exact ⟨s, rfl⟩
  · split
    · exact ⟨_, rfl⟩
    · rw [hp]
      exact ⟨_, rfl⟩

/-- What the source is after some OBUs. -/
def Av1Source.notes (buffers : List Bytes) (s : Av1Source) : Except ObuFault Av1Source :=
  buffers.foldlM (fun s buffer ↦ s.note buffer) s

theorem splitLoop_some {frames : List Bytes}
    (hextract : extractFrame frame = .ok (some (buffer, rest))) (hnote : s.note buffer = .ok s') :
    splitLoop s frames frame (n + 1) =
      if rest = [] then .ok (frames ++ [buffer], 0, s')
      else splitLoop s' (frames ++ [buffer]) rest n := by
  rw [splitLoop, hextract]
  change (s.note buffer >>= fun s ↦ _) = _
  rw [hnote]
  rfl

theorem notes_cons {buffers : List Bytes} (hnote : s.note buffer = .ok s') :
    s.notes (buffer :: buffers) = s'.notes buffers := by
  unfold Av1Source.notes
  rw [List.foldlM_cons, hnote]
  rfl

theorem splitLoop_cuts (frames : List Bytes) (hn : frame.length < n) :
    match splitLoop s frames frame n with
    | .ok (all, left, s') => ∃ buffers rest, all = frames ++ buffers ∧
        frame = buffers.flatten ++ rest ∧ rest.length = left ∧
        (∀ buffer ∈ buffers, buffer ≠ [] ∧ Whole buffer) ∧ extractFrame rest = .ok none ∧
        s.notes buffers = .ok s'
    | .error fault => fault = .undefinedShift ∧
        ∃ (buffers : List Bytes) (rest : Bytes), frame = buffers.flatten ++ rest ∧
          (∀ buffer ∈ buffers, buffer ≠ [] ∧ Whole buffer) ∧
          ∃ header, parseOBUHeader rest = some header ∧ header.hasSize = true ∧
            Overlong (rest.drop header.size) := by
  induction n generalizing frame frames s with
  | zero => exact absurd hn (Nat.not_lt_zero _)
  | succ n ih =>
    cases hextract : extractFrame frame with
    | error fault =>
      rw [splitLoop, hextract]
      obtain ⟨rfl, hoverlong⟩ := extractFrame_fault hextract
      exact ⟨rfl, [], frame, rfl, List.forall_mem_nil _, hoverlong⟩
    | ok extracted =>
      cases extracted with
      | none =>
        rw [splitLoop, hextract]
        exact ⟨[], frame, (List.append_nil _).symm, rfl, rfl, List.forall_mem_nil _, hextract, rfl⟩
      | some pair =>
        obtain ⟨buffer, rest⟩ := pair
        obtain ⟨hsplit, hne, hwhole⟩ := extractFrame_split hextract
        obtain ⟨s', hnote⟩ := note_whole s hwhole
        have hshort : rest.length < n := by
          have hlength := congrArg List.length hsplit
          have hpos := List.length_pos_iff.mpr hne
          rw [List.length_append] at hlength
          omega
        rw [splitLoop_some hextract hnote]
        by_cases hrest : rest = []
        · rw [if_pos hrest]
          refine ⟨[buffer], [], rfl, ?_, rfl, List.forall_mem_singleton.mpr ⟨hne, hwhole⟩, rfl, ?_⟩
          · rw [hsplit, hrest, List.flatten_singleton]
          · rw [notes_cons hnote]
            rfl
        · rw [if_neg hrest]
          have hloop : _ := @ih rest s' (frames ++ [buffer]) hshort
          revert hloop
          cases splitLoop s' (frames ++ [buffer]) rest n with
          | ok result =>
            rintro ⟨buffers, left, hall, hflat, hleft, hwholes, hnone, hnotes⟩
            refine ⟨buffer :: buffers, left, ?_, ?_, hleft,
              List.forall_mem_cons.mpr ⟨⟨hne, hwhole⟩, hwholes⟩, hnone, ?_⟩
            · rw [hall, List.append_assoc]
              rfl
            · rw [hsplit, hflat, List.flatten_cons, List.append_assoc]
            · rw [notes_cons hnote]
              exact hnotes
          | error fault =>
            rintro ⟨rfl, buffers, left, hflat, hwholes, hoverlong⟩
            refine ⟨rfl, buffer :: buffers, left, ?_,
              List.forall_mem_cons.mpr ⟨⟨hne, hwhole⟩, hwholes⟩, hoverlong⟩
            rw [hsplit, hflat, List.flatten_cons, List.append_assoc]

/-- Every buffer is cut into whole OBUs and a rest that has none in front, and no byte is lost or
made up; only a size that is overlong has no defined value. -/
theorem obus_lossless (s : Av1Source) (frame : Bytes) :
    match splitFrames s frame with
    | .ok (buffers, left, s') => ∃ rest, frame = buffers.flatten ++ rest ∧ rest.length = left ∧
        (∀ buffer ∈ buffers, buffer ≠ [] ∧ Whole buffer) ∧ extractFrame rest = .ok none ∧
        s.notes buffers = .ok s'
    | .error fault => fault = .undefinedShift ∧
        ∃ (buffers : List Bytes) (rest : Bytes), frame = buffers.flatten ++ rest ∧
          (∀ buffer ∈ buffers, buffer ≠ [] ∧ Whole buffer) ∧
          ∃ header, parseOBUHeader rest = some header ∧ header.hasSize = true ∧
            Overlong (rest.drop header.size) := by
  have hloop : _ := splitLoop_cuts (s := s) [] (Nat.lt_succ_self frame.length)
  unfold splitFrames
  revert hloop
  cases splitLoop s [] frame (frame.length + 1) with
  | ok result =>
    rintro ⟨buffers, rest, hall, hflat, hleft, hwholes, hnone, hnotes⟩
    obtain rfl : result.1 = buffers := hall
    exact ⟨rest, hflat, hleft, hwholes, hnone, hnotes⟩
  | error fault => exact id

theorem headerByte_bits (obuType : Fin 16) (extension size reserved : Bool) :
    Obu.headerByte obuType extension size reserved &&& 0x80 = 0 ∧
      ((Obu.headerByte obuType extension size reserved >>> 2) &&& 0x01 ≠ 0 ↔ extension = true) ∧
      (Obu.headerByte obuType extension size reserved >>> 3) &&& 0x0F = UInt8.ofNat obuType ∧
      (decide ((Obu.headerByte obuType extension size reserved >>> 1) &&& 0x01 ≠ 0) = size) := by
  revert obuType extension size reserved
  decide +kernel

theorem parse_encode (o : Obu) (rest : Bytes) : parseOBUHeader (o.encode ++ rest) =
    some ⟨1 + o.extension.toList.length, UInt8.ofNat o.obuType, o.size.isSome⟩ := by
  obtain ⟨hvalid, hextension, htype, hsize⟩ :=
    headerByte_bits o.obuType o.extension.isSome o.size.isSome o.reserved
  rw [Obu.encode, List.cons_append, parseOBUHeader, if_neg (not_not.mpr hvalid)]
  dsimp only
  rw [htype, hsize]
  cases hnone : o.extension with
  | none =>
    rw [hnone] at hextension
    rw [Option.isSome_none] at hextension ⊢
    have hnot := mt hextension.mp Bool.false_ne_true
    rw [if_neg fun hboth ↦ hnot hboth.1, if_neg hnot]
    rfl
  | some byte =>
    rw [hnone] at hextension
    rw [Option.isSome_some] at hextension ⊢
    rw [if_neg, if_pos (hextension.mpr rfl)]
    · rfl
    · rintro ⟨-, hnil⟩
      exact absurd hnil nofun

theorem encode_length (o : Obu) : o.encode.length =
    1 + o.extension.toList.length + (o.size.getD []).length + o.payload.length := by
  rw [Obu.encode, List.length_cons, List.length_append, List.length_append]
  omega

theorem drop_header (o : Obu) (rest : Bytes) :
    (o.encode ++ rest).drop (1 + o.extension.toList.length) =
      o.size.getD [] ++ (o.payload ++ rest) := by
  rw [Obu.encode, List.cons_append, Nat.add_comm, List.drop_succ_cons, List.append_assoc,
    List.append_assoc, List.drop_left]

theorem drop_size (o : Obu) :
    o.encode.drop (1 + o.extension.toList.length + (o.size.getD []).length) = o.payload := by
  rw [← List.drop_drop, ← List.append_nil o.encode, drop_header, List.drop_left, List.append_nil]

theorem parse_size {bytes : Bytes} (hsize : o.size = some bytes) (rest : Bytes) :
    parseLEB128 ((o.encode ++ rest).drop (1 + o.extension.toList.length)) =
      some (bytes.length, o.payload.length) := by
  obtain ⟨hleb, hshort⟩ := o.sized bytes hsize
  have hsmall := o.small
  rw [drop_header, hsize, Option.getD_some, parseLEB128,
    hleb.parse (by omega) (by decide) (by omega)]
  simp

theorem extractFrame_encode (hsize : o.size ≠ none) (rest : Bytes) :
    extractFrame (o.encode ++ rest) = .ok (some (o.encode, rest)) := by
  obtain ⟨bytes, hsize⟩ := Option.ne_none_iff_exists'.mp hsize
  obtain ⟨hleb, -⟩ := o.sized bytes hsize
  have hlength := encode_length o
  rw [hsize, Option.getD_some] at hlength
  have hframe := extractFrame_sized (parse_encode o rest) (by rw [hsize]; rfl)
    (parse_size hsize rest) (List.length_pos_iff.mpr hleb.ne_nil).ne' (by
      dsimp only
      rw [List.length_append]
      omega)
  dsimp only at hframe
  rwa [← hlength, List.take_left, List.drop_left] at hframe

theorem whole_encode (o : Obu) : Whole o.encode := by
  by_cases hsize : o.size = none
  · have hheader := parse_encode o []
    rw [List.append_nil] at hheader
    exact extractFrame_unsized hheader (by rw [hsize]; rfl)
  · have hframe := extractFrame_encode hsize []
    rwa [List.append_nil] at hframe

theorem note_encode (o : Obu) (s : Av1Source) : s.note o.encode = .ok (o.keep s) := by
  have hheader := parse_encode o []
  rw [List.append_nil] at hheader
  have htype : UInt8.ofNat o.obuType ≠ 1 ↔ o.obuType ≠ 1 := by
    have hall : ∀ t : Fin 16, UInt8.ofNat t ≠ 1 ↔ t ≠ 1 := by decide
    exact hall _
  have hleb : (if o.size.isSome then parseLEB128 (o.encode.drop (1 + o.extension.toList.length))
      else some (0, 0)) =
      some ((o.size.getD []).length, if o.size.isSome then o.payload.length else 0) := by
    cases hsize : o.size with
    | none => rfl
    | some bytes =>
      have hparse := parse_size hsize []
      rw [List.append_nil] at hparse
      exact hparse
  unfold Av1Source.note Obu.keep
  rw [hheader]
  dsimp only
  by_cases hkind : o.obuType ≠ 1
  · rw [if_pos (htype.mpr hkind), if_pos hkind]
  · rw [if_neg (mt htype.mp hkind), if_neg hkind]
    by_cases hattached : s.attached = false
    · rw [if_pos hattached, if_pos (.inl hattached)]
    · rw [if_neg hattached, hleb]
      dsimp only
      rw [drop_size]
      by_cases hpayload : o.payload = []
      · rw [if_pos hpayload, if_pos (.inr hpayload)]
      · rw [if_neg hpayload, if_neg (not_or.mpr ⟨hattached, hpayload⟩)]

theorem encode_ne_nil (o : Obu) : o.encode ≠ [] := List.cons_ne_nil _ _

theorem splitLoop_obus {obus : List Obu} (frames : List Bytes) (hne : obus ≠ [])
    (hsized : ∀ o ∈ obus.dropLast, o.size ≠ none)
    (hn : (obus.flatMap Obu.encode).length < n) :
    splitLoop s frames (obus.flatMap Obu.encode) n =
      .ok (frames ++ obus.map Obu.encode, 0, obus.foldl (fun s o ↦ o.keep s) s) := by
  induction obus generalizing s frames n with
  | nil => exact absurd rfl hne
  | cons o obus ih =>
    obtain ⟨n, rfl⟩ := Nat.exists_eq_succ_of_ne_zero (Nat.ne_of_gt (Nat.zero_lt_of_lt hn))
    rw [List.flatMap_cons] at hn ⊢
    cases obus with
    | nil =>
      rw [List.flatMap_nil, List.append_nil, splitLoop_some (whole_encode o) (note_encode o s),
        if_pos rfl]
      rfl
    | cons o' obus =>
      have hrest : (o' :: obus).flatMap Obu.encode ≠ [] := by
        rw [List.flatMap_cons]
        exact List.append_ne_nil_of_left_ne_nil (encode_ne_nil o') _
      have hlength : ((o' :: obus).flatMap Obu.encode).length < n := by
        have hpos := List.length_pos_iff.mpr (encode_ne_nil o)
        rw [List.length_append] at hn
        omega
      obtain ⟨hsize, hsized⟩ := List.forall_mem_cons.mp hsized
      rw [splitLoop_some (extractFrame_encode hsize _) (note_encode o s), if_neg hrest,
        ih _ (List.cons_ne_nil _ _) hsized hlength, List.append_assoc]
      rfl

/-- A temporal unit, as an encoder writes it, is cut where its OBUs meet. -/
theorem splitFrames_obus {obus : List Obu} (s : Av1Source)
    (hsized : ∀ o ∈ obus.dropLast, o.size ≠ none) :
    splitFrames s (obus.flatMap Obu.encode) =
      .ok (obus.map Obu.encode, 0, obus.foldl (fun s o ↦ o.keep s) s) := by
  cases obus with
  | nil => rfl
  | cons o obus => exact splitLoop_obus [] (List.cons_ne_nil _ _) hsized (Nat.lt_succ_self _)

def sequenceHeaderObu : Obu where
  obuType := 1
  extension := none
  reserved := false
  size := some [0x82, 0x00]
  payload := [10, 11]
  small := by decide
  sized := by
    intro bytes hbytes
    obtain rfl := Option.some.inj hbytes
    exact ⟨.more (b := 2) (n := 0) (by decide) (.last (by decide)), by decide⟩

def frameObu : Obu where
  obuType := 6
  extension := some 0x08
  reserved := false
  size := none
  payload := [12, 13, 14]
  small := by decide
  sized := nofun

theorem splitFrames_obus_unit : splitFrames { attached := true }
    [0x0A, 0x82, 0x00, 10, 11, 0x34, 0x08, 12, 13, 14] =
      .ok ([[0x0A, 0x82, 0x00, 10, 11], [0x34, 0x08, 12, 13, 14]], 0,
        ⟨[0x0A, 0x82, 0x00, 10, 11], true, [[10, 11]]⟩) :=
  @splitFrames_obus [sequenceHeaderObu, frameObu] { attached := true }
    (List.forall_mem_singleton.mpr nofun)

end ZoneMinder.Rtsp.Av1
