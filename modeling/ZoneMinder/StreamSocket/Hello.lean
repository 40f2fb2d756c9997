import Mathlib.Data.List.TakeWhile
import ZoneMinder.StreamSocket.Event

namespace ZoneMinder.StreamSocket

open Lib

/-- FFmpeg's table of codecs: avcodec_get_name and avcodec_descriptor_get_by_name. -/
structure Codecs where
  Known : UInt32 → Prop
  getName : UInt32 → Bytes
  getByName : Bytes → Option UInt32
  ne_none : ∀ id, Known id → id ≠ 0
  terminated : ∀ id, Known id → 0 ∉ getName id
  fits : ∀ id, Known id → (getName id).length ≤ kMaxTlvValueSize
  inverse : ∀ id, Known id → getByName (getName id) = some id
  getByName_nil : getByName [] = none

structure HelloInfo where
  codecId : UInt32 := 0
  codecName : Bytes := []
  extradata : Bytes := []
  width : UInt32 := 0
  height : UInt32 := 0
  fpsNum : UInt32 := 0
  fpsDen : UInt32 := 0
  sampleRate : UInt32 := 0
  channels : UInt32 := 0
  profile : UInt32 := 0
  level : UInt32 := 0
  deriving DecidableEq

/-- The switch of ParseHello; none where it returns false. -/
def helloField (info : HelloInfo) (tag : UInt8) (value : Bytes) : Option HelloInfo :=
  let knownNumeric := kTlvCodecId ≤ tag ∧ tag ≤ kTlvLevel ∧ tag ≠ kTlvExtradata
  if knownNumeric ∧ value.length ≠ 4 then none
  else if tag = kTlvCodecId then some { info with codecId := getU32 value 0 }
  else if tag = kTlvExtradata then some { info with extradata := value }
  else if tag = kTlvWidth then some { info with width := getU32 value 0 }
  else if tag = kTlvHeight then some { info with height := getU32 value 0 }
  else if tag = kTlvFpsNum then some { info with fpsNum := getU32 value 0 }
  else if tag = kTlvFpsDen then some { info with fpsDen := getU32 value 0 }
  else if tag = kTlvSampleRate then some { info with sampleRate := getU32 value 0 }
  else if tag = kTlvChannels then some { info with channels := getU32 value 0 }
  else if tag = kTlvProfile then some { info with profile := getU32 value 0 }
  else if tag = kTlvLevel then some { info with level := getU32 value 0 }
  else if tag = kTlvCodecName then some { info with codecName := value }
  else some info

/-- A string as C reads it. -/
def cString (text : Bytes) : Bytes := text.takeWhile (· ≠ 0)

/-- The name wins over the number where it is known. -/
def resolve (getByName : Bytes → Option UInt32) (info : HelloInfo) : HelloInfo :=
  if info.codecName ≠ [] then
    match getByName (cString info.codecName) with
    | some id => { info with codecId := id }
    | none => info
  else info

def parseHello (getByName : Bytes → Option UInt32) (data : Bytes) : Option HelloInfo :=
  (foldTlvs helloField {} data).bind fun info ↦
    if (resolve getByName info).codecId ≠ 0 then some (resolve getByName info) else none

/-- A number that is sent where it is positive. -/
def positive (v : Int32) : UInt32 := if 0 < v then v.toUInt32 else 0

/-- What a consumer gets to know of the parameters of a stream. -/
def CodecParameters.received (codecs : Codecs) (par : CodecParameters) (rate : Rational) :
    HelloInfo where
  codecId := par.codecId
  codecName := codecs.getName par.codecId
  extradata := if par.extradata.length ≤ kMaxTlvValueSize then par.extradata else []
  width := if par.codecType = .video then positive par.width else 0
  height := if par.codecType = .video then positive par.height else 0
  fpsNum := if par.codecType = .video ∧ 0 < rate.den then positive rate.num else 0
  fpsDen := if par.codecType = .video ∧ 0 < rate.num then positive rate.den else 0
  sampleRate := if par.codecType = .audio then positive par.sampleRate else 0
  channels := if par.codecType = .audio then positive par.channels else 0
  profile := positive par.profile
  level := positive par.level

/-- What BuildHello writes. -/
def helloTlvs (codecName : UInt32 → Bytes) (par : CodecParameters) (rate : Rational) : List Tlv :=
  [u32Tlv kTlvCodecId par.codecId, clampTlv kTlvCodecName (codecName par.codecId)] ++
  optional (¬(par.extradata = [] ∨ kMaxTlvValueSize < par.extradata.length))
    (clampTlv kTlvExtradata par.extradata) ++
  optional (par.codecType = .video ∧ 0 < par.width) (u32Tlv kTlvWidth par.width.toUInt32) ++
  optional (par.codecType = .video ∧ 0 < par.height) (u32Tlv kTlvHeight par.height.toUInt32) ++
  optional (par.codecType = .video ∧ 0 < rate.num ∧ 0 < rate.den)
    (u32Tlv kTlvFpsNum rate.num.toUInt32) ++
  optional (par.codecType = .video ∧ 0 < rate.num ∧ 0 < rate.den)
    (u32Tlv kTlvFpsDen rate.den.toUInt32) ++
  optional (par.codecType = .audio ∧ 0 < par.sampleRate)
    (u32Tlv kTlvSampleRate par.sampleRate.toUInt32) ++
  optional (par.codecType = .audio ∧ 0 < par.channels)
    (u32Tlv kTlvChannels par.channels.toUInt32) ++
  optional (0 ≤ par.profile) (u32Tlv kTlvProfile par.profile.toUInt32) ++
  optional (0 ≤ par.level) (u32Tlv kTlvLevel par.level.toUInt32)

section Build

variable {codecs : Codecs} {par : CodecParameters} {rate : Rational} {out : Bytes}

theorem appendTlvU32If_eq (cond : Bool) (tag : UInt8) (value : UInt32) (out : Bytes) :
    appendTlvU32If cond tag value out = out ++ encodeTlvs (optional cond (u32Tlv tag value)) := by
  rw [appendTlvU32If, appendTlvU32_eq, append_optional]

theorem buildHello_eq (codecName : UInt32 → Bytes) (par : CodecParameters) (rate : Rational) :
    buildHello codecName par rate = encodeTlvs (helloTlvs codecName par rate) := by
  have hextradata (out : Bytes) :
      (if par.extradata = [] ∨ kMaxTlvValueSize < par.extradata.length then out
        else appendTlv out kTlvExtradata par.extradata (UInt16.ofNat par.extradata.length)) =
      out ++ encodeTlvs (optional (¬(par.extradata = [] ∨
        kMaxTlvValueSize < par.extradata.length)) (clampTlv kTlvExtradata par.extradata)) := by
    rw [← append_optional, ite_not]
    split_ifs with hnone
    · rfl
    · have hstr : appendTlvStr out kTlvExtradata par.extradata =
          appendTlv out kTlvExtradata par.extradata (UInt16.ofNat par.extradata.length) := by
        rw [appendTlvStr, if_neg fun hlong ↦ hnone (.inr hlong)]
      rw [← hstr, appendTlvStr_eq]
  rw [buildHello, helloTlvs]
  simp only [appendTlvU32_eq, appendTlvStr_eq, hextradata, appendTlvU32If_eq, encodeTlvs_append]
  cases par.codecType <;> simp [optional, encodeTlvs, List.append_assoc]

/-- A field of four bytes is read as it was written. -/
theorem helloField_u32 {e : HelloInfo} {tag : UInt8} {v : UInt32} (set : UInt32 → HelloInfo)
    (h : helloField e tag (putU32 v) = some (set (getU32 (putU32 v) 0))) :
    helloField e (u32Tlv tag v).tag (u32Tlv tag v).value = some (set v) := by
  rw [getU32_putU32] at h
  exact h

theorem foldTlvs_optional_u32 {e : HelloInfo} {tag : UInt8} {old : UInt32}
    (set : UInt32 → HelloInfo) (hold : set old = e)
    (h : ∀ v, helloField e tag (putU32 v) = some (set (getU32 (putU32 v) 0)))
    (c : Prop) [Decidable c] (v : UInt32) (ts : List Tlv) :
    foldTlvs helloField e (encodeTlvs (optional c (u32Tlv tag v) ++ ts)) =
      foldTlvs helloField (set (if c then v else old)) (encodeTlvs ts) := by
  have hfold := @foldTlvs_optional _ helloField e c _ (u32Tlv tag v)
    (fun read ↦ set (if read then v else old)) hold (helloField_u32 set (h v)) ts
  rw [hfold]
  simp only [decide_eq_true_eq]

theorem helloField_unknown (e : HelloInfo) {tag : UInt8} (value : Bytes)
    (h : tag = 0 ∨ 0x0B < tag) : helloField e tag value = some e := by
  have hne (k : UInt8) (h0 : 0 < k) (hk : k ≤ 0x0B) : tag ≠ k := by
    rintro rfl
    rcases h with rfl | h
    · exact absurd h0 (by decide)
    · exact absurd h (UInt8.not_lt.mpr hk)
  have hnumeric : ¬(kTlvCodecId ≤ tag ∧ tag ≤ kTlvLevel ∧ tag ≠ kTlvExtradata) := by
    rintro ⟨hlow, hhigh, -⟩
    rcases h with rfl | h
    · exact absurd hlow (by decide)
    · exact absurd (UInt8.lt_of_lt_of_le h hhigh) (by decide)
  rw [helloField, if_neg fun hbad ↦ hnumeric hbad.1]
  rw [if_neg (hne _ (by decide) (by decide)), if_neg (hne _ (by decide) (by decide)),
    if_neg (hne _ (by decide) (by decide)), if_neg (hne _ (by decide) (by decide)),
    if_neg (hne _ (by decide) (by decide)), if_neg (hne _ (by decide) (by decide)),
    if_neg (hne _ (by decide) (by decide)), if_neg (hne _ (by decide) (by decide)),
    if_neg (hne _ (by decide) (by decide)), if_neg (hne _ (by decide) (by decide)),
    if_neg (hne _ (by decide) (by decide))]

/-- Zero or more is sent, and zero is what a field starts with. -/
theorem ite_nonneg (v : Int32) : (if 0 ≤ v then v.toUInt32 else 0) = positive v := by
  rw [positive]
  by_cases hpos : 0 < v
  · rw [if_pos hpos, if_pos (Int32.le_of_lt hpos)]
  · rw [if_neg hpos]
    split_ifs with hnonneg
    · have hzero : v = 0 := Int32.le_antisymm (Int32.not_lt.mp hpos) hnonneg
      rw [hzero]
      rfl
    · rfl

theorem ite_and_pos (c : Prop) [Decidable c] (v : Int32) :
    (if c ∧ 0 < v then v.toUInt32 else 0) = if c then positive v else 0 := by
  rw [positive, ← ite_and]

theorem ite_extradata (extradata : Bytes) :
    (if ¬(extradata = [] ∨ kMaxTlvValueSize < extradata.length) then
      extradata.take kMaxTlvValueSize else []) =
      if extradata.length ≤ kMaxTlvValueSize then extradata else [] := by
  by_cases hlong : kMaxTlvValueSize < extradata.length
  · rw [if_neg (not_not.mpr (.inr hlong)), if_neg (not_le.mpr hlong)]
  · rw [List.take_of_length_le (not_lt.mp hlong), if_pos (not_lt.mp hlong)]
    split_ifs with hnone
    · exact (hnone.resolve_right hlong).symm
    · rfl

/-- One equation for each field, in the order they are written. -/
theorem foldTlvs_helloTlvs (hfits : (codecs.getName par.codecId).length ≤ kMaxTlvValueSize) :
    foldTlvs helloField {} (encodeTlvs (helloTlvs codecs.getName par rate)) =
      some (par.received codecs rate) := by
  have hextradata (e : HelloInfo) := @foldTlvs_optional _ helloField e
    (¬(par.extradata = [] ∨ kMaxTlvValueSize < par.extradata.length)) _
    (clampTlv kTlvExtradata par.extradata)
    (fun c ↦ { e with extradata :=
      if c then par.extradata.take kMaxTlvValueSize else e.extradata }) rfl rfl
  have hwidth (e : HelloInfo) := @foldTlvs_optional_u32 e kTlvWidth e.width
    (fun v ↦ { e with width := v }) rfl fun _ ↦ rfl
  have hheight (e : HelloInfo) := @foldTlvs_optional_u32 e kTlvHeight e.height
    (fun v ↦ { e with height := v }) rfl fun _ ↦ rfl
  have hfpsNum (e : HelloInfo) := @foldTlvs_optional_u32 e kTlvFpsNum e.fpsNum
    (fun v ↦ { e with fpsNum := v }) rfl fun _ ↦ rfl
  have hfpsDen (e : HelloInfo) := @foldTlvs_optional_u32 e kTlvFpsDen e.fpsDen
    (fun v ↦ { e with fpsDen := v }) rfl fun _ ↦ rfl
  have hsampleRate (e : HelloInfo) := @foldTlvs_optional_u32 e kTlvSampleRate e.sampleRate
    (fun v ↦ { e with sampleRate := v }) rfl fun _ ↦ rfl
  have hchannels (e : HelloInfo) := @foldTlvs_optional_u32 e kTlvChannels e.channels
    (fun v ↦ { e with channels := v }) rfl fun _ ↦ rfl
  have hprofile (e : HelloInfo) := @foldTlvs_optional_u32 e kTlvProfile e.profile
    (fun v ↦ { e with profile := v }) rfl fun _ ↦ rfl
  have hlevel (e : HelloInfo) := @foldTlvs_optional_u32 e kTlvLevel e.level
    (fun v ↦ { e with level := v }) rfl fun _ ↦ rfl
  have hcodecId : helloField {} (u32Tlv kTlvCodecId par.codecId).tag
      (u32Tlv kTlvCodecId par.codecId).value = some { codecId := par.codecId } :=
    helloField_u32 (fun v ↦ { codecId := v }) rfl
  have hname (e : HelloInfo) (value : Bytes) :
      helloField e (clampTlv kTlvCodecName value).tag (clampTlv kTlvCodecName value).value =
        some { e with codecName := value.take kMaxTlvValueSize } := rfl
  rw [helloTlvs, ← List.append_nil (optional (0 ≤ par.level) _)]
  simp only [List.append_assoc, List.cons_append, List.nil_append]
  rw [encodeTlvs_cons, foldTlvs_cons, hcodecId, Option.bind_some, encodeTlvs_cons, foldTlvs_cons,
    hname, Option.bind_some, hextradata, hwidth, hheight, hfpsNum, hfpsDen, hsampleRate, hchannels,
    hprofile, hlevel]
  simp only [encodeTlvs, List.flatMap_nil, foldTlvs_nil, decide_eq_true_eq,
    List.take_of_length_le hfits, ite_nonneg, ite_and_pos, ite_extradata]
  rw [CodecParameters.received]
  have hrate : (if par.codecType = .video ∧ 0 < rate.num ∧ 0 < rate.den then
      rate.num.toUInt32 else 0) =
      if par.codecType = .video ∧ 0 < rate.den then positive rate.num else 0 := by
    rw [← ite_and_pos]
    exact if_congr (by tauto) rfl rfl
  have hscale : (if par.codecType = .video ∧ 0 < rate.num ∧ 0 < rate.den then
      rate.den.toUInt32 else 0) =
      if par.codecType = .video ∧ 0 < rate.num then positive rate.den else 0 := by
    rw [← ite_and_pos]
    exact if_congr (by tauto) rfl rfl
  rw [hrate, hscale]

theorem cString_of_terminated {text : Bytes} (h : 0 ∉ text) : cString text = text := by
  refine List.takeWhile_eq_self_iff.mpr fun c hc ↦ decide_eq_true ?_
  rintro rfl
  exact h hc

theorem parseHello_buildHello (codecs : Codecs) {par : CodecParameters} (rate : Rational)
    (h : codecs.Known par.codecId) :
    parseHello codecs.getByName (buildHello codecs.getName par rate) =
      some (par.received codecs rate) := by
  have hresolve : resolve codecs.getByName (par.received codecs rate) =
      par.received codecs rate := by
    have hname : (par.received codecs rate).codecName = codecs.getName par.codecId := rfl
    rw [resolve, hname, cString_of_terminated (codecs.terminated _ h), codecs.inverse _ h]
    split_ifs <;> rfl
  rw [parseHello, buildHello_eq, foldTlvs_helloTlvs (codecs.fits _ h), Option.bind_some, hresolve]
  exact if_pos (codecs.ne_none _ h)

end Build

section Parse

variable {getByName : Bytes → Option UInt32} {data : Bytes} {info e : HelloInfo}

theorem exists_of_parseHello (h : parseHello getByName data = some info) :
    ∃ e, foldTlvs helloField {} data = some e ∧ info = resolve getByName e := by
  obtain ⟨e, he, hinfo⟩ := Option.bind_eq_some_iff.mp h
  exact ⟨e, he, (Option.some.inj (Option.ite_none_right_eq_some.mp hinfo).2).symm⟩

theorem parseHello_unknown (pre unknown post : List Tlv)
    (hunknown : ∀ t ∈ unknown, t.tag = 0 ∨ 0x0B < t.tag) :
    parseHello getByName (encodeTlvs (pre ++ unknown ++ post)) =
      parseHello getByName (encodeTlvs (pre ++ post)) := by
  rw [parseHello, parseHello, foldTlvs_insert]
  intro t ht e
  exact helloField_unknown e t.value (hunknown t ht)

theorem parseHello_cut (pre post : List Tlv) (t : Tlv) {k : ℕ} (h0 : 0 < k)
    (hk : k < t.encode.length) :
    parseHello getByName
      ((encodeTlvs (pre ++ t :: post)).take ((encodeTlvs pre).length + k)) = none := by
  have htake : (encodeTlvs (pre ++ t :: post)).take ((encodeTlvs pre).length + k) =
      encodeTlvs pre ++ t.encode.take k := by
    rw [encodeTlvs_append, List.take_length_add_append, encodeTlvs_cons,
      List.take_append_of_le_length hk.le]
  rw [parseHello, htake, foldTlvs_cut h0 hk pre]
  rfl

theorem codecName_ite {c : Prop} [Decidable c] {name : Bytes} {b : Option HelloInfo}
    (he : e.codecName = name) (hb : ∀ i, b = some i → i.codecName = name) :
    ∀ i, (if c then some e else b) = some i → i.codecName = name := by
  intro i hi
  split at hi
  · rw [← Option.some.inj hi, he]
  · exact hb i hi

/-- No field but the name itself touches the name. -/
theorem codecName_of_helloField {t : Tlv} (h : helloField e t.tag t.value = some info)
    (hname : t.tag ≠ kTlvCodecName) : info.codecName = e.codecName := by
  rw [helloField] at h
  replace h := (Option.ite_none_left_eq_some.mp h).2
  rw [if_neg hname] at h
  refine codecName_ite ?_ ?_ info h
  · rfl
  iterate 9 refine codecName_ite rfl ?_
  intro info h
  rw [← Option.some.inj h]

theorem codecName_of_foldlM {ts : List Tlv}
    (h : ts.foldlM (fun e t ↦ helloField e t.tag t.value) e = some info)
    (hname : ∀ t ∈ ts, t.tag ≠ kTlvCodecName) : info.codecName = e.codecName := by
  induction ts generalizing e with
  | nil =>
    obtain rfl : e = info := by simpa using h
    rfl
  | cons t ts ih =>
    rw [List.foldlM_cons] at h
    obtain ⟨e', he', h⟩ := Option.bind_eq_some_iff.mp h
    rw [List.forall_mem_cons] at hname
    rw [ih h hname.2, codecName_of_helloField he' hname.1]

/-- The name that stands last is the one that is kept. -/
theorem codecName_of_foldTlvs {pre post : List Tlv} {t : Tlv} (htag : t.tag = kTlvCodecName)
    (hpost : ∀ u ∈ post, u.tag ≠ kTlvCodecName)
    (h : foldTlvs helloField e (encodeTlvs (pre ++ t :: post)) = some info) :
    info.codecName = t.value := by
  rw [foldTlvs_encode, List.foldlM_append] at h
  obtain ⟨e', -, h⟩ := Option.bind_eq_some_iff.mp h
  rw [List.foldlM_cons, htag] at h
  rw [codecName_of_foldlM h hpost]

end Parse

/-- HELLO payloads come back as they were built, unknown fields are skipped wherever they stand,
nothing is accepted that ends inside a field, and a number never wins over a name that is known. -/
theorem hello_wire (codecs : Codecs) :
    (∀ par rate, codecs.Known par.codecId → par.codecType ≠ .other →
      parseHello codecs.getByName (buildHello codecs.getName par rate) =
        some (par.received codecs rate)) ∧
    (∀ payload info, parseHello codecs.getByName payload = some info →
      (∃ ts, payload = encodeTlvs ts) ∧
      ∀ pre unknown post : List Tlv, payload = encodeTlvs (pre ++ post) →
        (∀ t ∈ unknown, t.tag = 0 ∨ 0x0B < t.tag) →
          parseHello codecs.getByName (encodeTlvs (pre ++ unknown ++ post)) = some info) ∧
    (∀ (pre post : List Tlv) (t : Tlv) (k : ℕ), 0 < k → k < t.encode.length →
      parseHello codecs.getByName
        ((encodeTlvs (pre ++ t :: post)).take ((encodeTlvs pre).length + k)) = none) ∧
    ∀ (pre post : List Tlv) (t : Tlv) (id : UInt32) (info : HelloInfo), t.tag = kTlvCodecName →
      (∀ u ∈ post, u.tag ≠ kTlvCodecName) → codecs.getByName (cString t.value) = some id →
        parseHello codecs.getByName (encodeTlvs (pre ++ t :: post)) = some info →
          info.codecId = id := by
  refine ⟨?_, ?_, ?_, ?_⟩
  · intro par rate hknown _
    exact parseHello_buildHello codecs rate hknown
  · intro payload info h
    obtain ⟨e, he, -⟩ := exists_of_parseHello h
    refine ⟨exists_encode he, ?_⟩
    rintro pre unknown post rfl hunknown
    rw [parseHello_unknown pre unknown post hunknown, h]
  · intro pre post t k h0 hk
    exact parseHello_cut pre post t h0 hk
  · intro pre post t id info htag hpost hid h
    obtain ⟨e, he, rfl⟩ := exists_of_parseHello h
    have hname := codecName_of_foldTlvs htag hpost he
    have hne : t.value ≠ [] := by
      intro hnil
      rw [hnil] at hid
      exact absurd (codecs.getByName_nil.symm.trans hid) (by simp)
    rw [resolve, hname, if_pos hne, hid]

/-- A build that knows one codec. -/
def h264 : Codecs where
  Known id := id = 27
  getName _ := [0x68, 0x32, 0x36, 0x34]
  getByName name := if name = [0x68, 0x32, 0x36, 0x34] then some 27 else none
  ne_none := by
    rintro id rfl
    decide
  terminated _ _ := by decide
  fits _ _ := by decide
  inverse := by
    rintro id rfl
    rfl
  getByName_nil := rfl

theorem hello_wire_h264 :
    parseHello h264.getByName
      (buildHello h264.getName ⟨.video, 27, [1, 2], 640, 480, 0, 0, -99, 31⟩ ⟨25, 1⟩) =
        some (CodecParameters.received h264 ⟨.video, 27, [1, 2], 640, 480, 0, 0, -99, 31⟩ ⟨25, 1⟩) ∧
    parseHello h264.getByName (encodeTlvs ([u32Tlv kTlvCodecId 27] ++ [u16Tlv 0x0C 7] ++ [])) =
      some { codecId := 27 } := by
  obtain ⟨hbuild, haccepted, -, -⟩ := hello_wire h264
  have hnumber : parseHello h264.getByName (encodeTlvs ([u32Tlv kTlvCodecId 27] ++ [])) =
      some { codecId := 27 } := by decide
  exact ⟨hbuild _ _ rfl (by decide), (haccepted _ _ hnumber).2 _ [u16Tlv 0x0C 7] [] rfl (by decide)⟩

end ZoneMinder.StreamSocket
