import ZoneMinder.Lib.Words

namespace ZoneMinder.StreamSocket

open Lib

def putU16 (value : UInt16) : Bytes := [value.toUInt8, (value >>> 8).toUInt8]

def putU32 (value : UInt32) : Bytes :=
  [byteOf value 0, byteOf value 1, byteOf value 2, byteOf value 3]

def putU64 (value : UInt64) : Bytes :=
  putU32 value.toUInt32 ++ putU32 (value >>> 32).toUInt32

def getU32 (data : Bytes) (pos : ℕ) : UInt32 :=
  wordOf (byteAt data pos) (byteAt data (pos + 1)) (byteAt data (pos + 2)) (byteAt data (pos + 3))

def getU64 (data : Bytes) (pos : ℕ) : UInt64 := dwordOf (getU32 data pos) (getU32 data (pos + 4))

def kProtocolVersion : UInt8 := 1
def kHeaderSize : ℕ := 24
def kHeaderLengthBytes : UInt32 := 20
def kMaxTlvValueSize : ℕ := 0xffff

inductive MessageType
  | hello | media | keyframe | stats | bye | event
  deriving DecidableEq

def MessageType.toByte : MessageType → UInt8
  | .hello => 0x01
  | .media => 0x02
  | .keyframe => 0x03
  | .stats => 0x04
  | .bye => 0x05
  | .event => 0x06

theorem MessageType.toByte_injective : Function.Injective toByte := by
  intro a b h
  cases a <;> cases b <;> first | rfl | exact absurd h (by decide)

inductive StreamId
  | video | audio | monitor
  deriving DecidableEq

def StreamId.toByte : StreamId → UInt8
  | .video => 0
  | .audio => 1
  | .monitor => 2

theorem StreamId.toByte_injective : Function.Injective toByte := by
  intro a b h
  cases a <;> cases b <;> first | rfl | exact absurd h (by decide)

def kFlagKeyframe : UInt8 := 0x01

def kTlvCodecId : UInt8 := 0x01
def kTlvExtradata : UInt8 := 0x02
def kTlvWidth : UInt8 := 0x03
def kTlvHeight : UInt8 := 0x04
def kTlvFpsNum : UInt8 := 0x05
def kTlvFpsDen : UInt8 := 0x06
def kTlvSampleRate : UInt8 := 0x07
def kTlvChannels : UInt8 := 0x08
def kTlvProfile : UInt8 := 0x09
def kTlvLevel : UInt8 := 0x0A
def kTlvCodecName : UInt8 := 0x0B

structure Header where
  length : UInt32
  version : UInt8
  type : UInt8
  stream : UInt8
  flags : UInt8
  sequence : UInt32
  generation : UInt32
  ptsUs : Int64
  deriving DecidableEq

def serializeHeader (header : Header) : Bytes :=
  putU32 header.length ++ [header.version, header.type, header.stream, header.flags] ++
    putU32 header.sequence ++ putU32 header.generation ++ putU64 header.ptsUs.toUInt64

def readHeader (data : Bytes) : Header where
  length := getU32 data 0
  version := byteAt data 4
  type := byteAt data 5
  stream := byteAt data 6
  flags := byteAt data 7
  sequence := getU32 data 8
  generation := getU32 data 12
  ptsUs := (getU64 data 16).toInt64

@[simp] theorem serializeHeader_length (header : Header) :
    (serializeHeader header).length = kHeaderSize := rfl

/-- The wire format loses nothing: every field is read back as it was written. -/
@[simp] theorem readHeader_serializeHeader (header : Header) :
    readHeader (serializeHeader header) = header := by
  have h0 : getU32 (serializeHeader header) 0 = header.length := wordOf_byteOf _
  have h8 : getU32 (serializeHeader header) 8 = header.sequence := wordOf_byteOf _
  have h12 : getU32 (serializeHeader header) 12 = header.generation := wordOf_byteOf _
  have h16 : getU32 (serializeHeader header) 16 = header.ptsUs.toUInt64.toUInt32 := wordOf_byteOf _
  have h20 : getU32 (serializeHeader header) 20 = (header.ptsUs.toUInt64 >>> 32).toUInt32 :=
    wordOf_byteOf _
  have hpts : (getU64 (serializeHeader header) 16).toInt64 = header.ptsUs := by
    rw [getU64, h16, h20, dwordOf_halves, Int64.toInt64_toUInt64]
  simp only [readHeader, h0, h8, h12, hpts]
  rfl

inductive MediaType
  | video | audio | other
  deriving DecidableEq

/-- The AVCodecParameters fields BuildHello reads. Codec id 0 is AV_CODEC_ID_NONE,
a null or empty extradata is the empty list. -/
structure CodecParameters where
  codecType : MediaType
  codecId : UInt32
  extradata : Bytes
  width : Int32
  height : Int32
  sampleRate : Int32
  channels : Int32
  profile : Int32
  level : Int32
  deriving DecidableEq

structure Rational where
  num : Int32
  den : Int32
  deriving DecidableEq

def appendTlv (out : Bytes) (tag : UInt8) (value : Bytes) (len : UInt16) : Bytes :=
  out ++ [tag] ++ putU16 len ++ value.take len.toNat

def appendTlvU32 (out : Bytes) (tag : UInt8) (value : UInt32) : Bytes :=
  appendTlv out tag (putU32 value) 4

def appendTlvStr (out : Bytes) (tag : UInt8) (value : Bytes) : Bytes :=
  appendTlv out tag value
    (if kMaxTlvValueSize < value.length then 0xffff else UInt16.ofNat value.length)

/-- BuildHello's conditional fields: appended only when the test holds. -/
def appendTlvU32If (cond : Bool) (tag : UInt8) (value : UInt32) (out : Bytes) : Bytes :=
  if cond then appendTlvU32 out tag value else out

/-- `codecName` is FFmpeg's avcodec_get_name. -/
def buildHello (codecName : UInt32 → Bytes) (par : CodecParameters) (rate : Rational) : Bytes :=
  let out := appendTlvU32 [] kTlvCodecId par.codecId
  let out := appendTlvStr out kTlvCodecName (codecName par.codecId)
  let out :=
    if par.extradata = [] ∨ kMaxTlvValueSize < par.extradata.length then out
    else appendTlv out kTlvExtradata par.extradata (UInt16.ofNat par.extradata.length)
  let out :=
    match par.codecType with
    | .video =>
      let hasRate := 0 < rate.num && 0 < rate.den
      out |> appendTlvU32If (0 < par.width) kTlvWidth par.width.toUInt32
        |> appendTlvU32If (0 < par.height) kTlvHeight par.height.toUInt32
        |> appendTlvU32If hasRate kTlvFpsNum rate.num.toUInt32
        |> appendTlvU32If hasRate kTlvFpsDen rate.den.toUInt32
    | .audio =>
      out |> appendTlvU32If (0 < par.sampleRate) kTlvSampleRate par.sampleRate.toUInt32
        |> appendTlvU32If (0 < par.channels) kTlvChannels par.channels.toUInt32
    | .other => out
  out |> appendTlvU32If (0 ≤ par.profile) kTlvProfile par.profile.toUInt32
    |> appendTlvU32If (0 ≤ par.level) kTlvLevel par.level.toUInt32

/-- HELLO body for a stream, or empty when the source has no such stream. -/
def helloPayload (codecName : UInt32 → Bytes) (par : Option CodecParameters) (rate : Rational) :
    Bytes :=
  match par with
  | none => []
  | some par => if par.codecId = 0 then [] else buildHello codecName par rate

def buildStats (sent dropped : UInt64) : Bytes := putU64 sent ++ putU64 dropped

end ZoneMinder.StreamSocket
