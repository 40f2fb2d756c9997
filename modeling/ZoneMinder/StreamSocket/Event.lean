import ZoneMinder.Lib.Tlv
import ZoneMinder.StreamSocket.Protocol

namespace ZoneMinder.StreamSocket

open Lib

def getU16 (data : Bytes) (pos : ℕ) : UInt16 := halfOf (byteAt data pos) (byteAt data (pos + 1))

def appendTlvU64 (out : Bytes) (tag : UInt8) (value : UInt64) : Bytes :=
  appendTlv out tag (putU64 value) 8

def kTlvWallClockUs : UInt8 := 0x01
def kTlvMessage : UInt8 := 0x02
def kTlvStateId : UInt8 := 0x03
def kTlvPrevStateId : UInt8 := 0x04
def kTlvDetail : UInt8 := 0x05
def kTlvStateName : UInt8 := 0x06
def kTlvHealthCode : UInt8 := 0x07

structure MonitorEvent where
  code : UInt16 := 0
  wallClockUs : UInt64 := 0
  hasWallClock : Bool := false
  message : Bytes := []
  stateId : UInt32 := 0
  hasStateId : Bool := false
  prevStateId : UInt32 := 0
  hasPrevStateId : Bool := false
  detail : UInt32 := 0
  hasDetail : Bool := false
  stateName : Bytes := []
  healthCode : UInt16 := 0
  hasHealthCode : Bool := false
  deriving DecidableEq

def buildEvent (ev : MonitorEvent) : Bytes :=
  let out := putU16 ev.code
  let out := if ev.hasWallClock then appendTlvU64 out kTlvWallClockUs ev.wallClockUs else out
  let out := if ev.message ≠ [] then appendTlvStr out kTlvMessage ev.message else out
  let out := if ev.hasStateId then appendTlvU32 out kTlvStateId ev.stateId else out
  let out := if ev.hasPrevStateId then appendTlvU32 out kTlvPrevStateId ev.prevStateId else out
  let out := if ev.hasDetail then appendTlvU32 out kTlvDetail ev.detail else out
  let out := if ev.stateName ≠ [] then appendTlvStr out kTlvStateName ev.stateName else out
  if ev.hasHealthCode then appendTlv out kTlvHealthCode (putU16 ev.healthCode) 2 else out

/-- The switch of ParseEvent; none where it returns false. -/
def eventField (ev : MonitorEvent) (tag : UInt8) (value : Bytes) : Option MonitorEvent :=
  if tag = kTlvWallClockUs then
    if value.length ≠ 8 then none
    else some { ev with wallClockUs := getU64 value 0, hasWallClock := true }
  else if tag = kTlvMessage then some { ev with message := value }
  else if tag = kTlvStateId then
    if value.length ≠ 4 then none
    else some { ev with stateId := getU32 value 0, hasStateId := true }
  else if tag = kTlvPrevStateId then
    if value.length ≠ 4 then none
    else some { ev with prevStateId := getU32 value 0, hasPrevStateId := true }
  else if tag = kTlvDetail then
    if value.length ≠ 4 then none
    else some { ev with detail := getU32 value 0, hasDetail := true }
  else if tag = kTlvStateName then some { ev with stateName := value }
  else if tag = kTlvHealthCode then
    if value.length ≠ 2 then none
    else some { ev with healthCode := getU16 value 0, hasHealthCode := true }
  else some ev

def parseEvent (data : Bytes) : Option MonitorEvent :=
  if data.length < 2 then none
  else foldTlvs eventField { code := getU16 data 0 } (data.drop 2)

/-- What a consumer gets to know of an event. -/
def MonitorEvent.received (ev : MonitorEvent) : MonitorEvent where
  code := ev.code
  wallClockUs := if ev.hasWallClock then ev.wallClockUs else 0
  hasWallClock := ev.hasWallClock
  message := ev.message.take kMaxTlvValueSize
  stateId := if ev.hasStateId then ev.stateId else 0
  hasStateId := ev.hasStateId
  prevStateId := if ev.hasPrevStateId then ev.prevStateId else 0
  hasPrevStateId := ev.hasPrevStateId
  detail := if ev.hasDetail then ev.detail else 0
  hasDetail := ev.hasDetail
  stateName := ev.stateName.take kMaxTlvValueSize
  healthCode := if ev.hasHealthCode then ev.healthCode else 0
  hasHealthCode := ev.hasHealthCode

variable {ev e e' : MonitorEvent} {out value data : Bytes} {tag : UInt8}

@[simp] theorem putU16_length (v : UInt16) : (putU16 v).length = 2 := rfl

@[simp] theorem putU32_length (v : UInt32) : (putU32 v).length = 4 := rfl

@[simp] theorem putU64_length (v : UInt64) : (putU64 v).length = 8 := rfl

theorem getU16_putU16 (v : UInt16) : getU16 (putU16 v) 0 = v := halfOf_bytes v

theorem getU32_putU32 (v : UInt32) : getU32 (putU32 v) 0 = v := wordOf_byteOf v

theorem getU64_putU64 (v : UInt64) : getU64 (putU64 v) 0 = v :=
  (congrArg₂ dwordOf (wordOf_byteOf _) (wordOf_byteOf _)).trans (dwordOf_halves v)

/-- append_tlv writes one TLV, as long as the length it states is that of the value. -/
theorem appendTlv_eq (t : Tlv) (out : Bytes) : appendTlv out t.tag t.value t.length = out ++ t.encode := by
  rw [appendTlv, t.length_toNat, List.take_length, List.append_assoc, List.append_assoc, Tlv.encode]
  rfl

def clampTlv (tag : UInt8) (value : Bytes) : Tlv :=
  ⟨tag, value.take kMaxTlvValueSize, by
    rw [List.length_take, kMaxTlvValueSize]
    omega⟩

theorem appendTlvStr_eq (out : Bytes) (tag : UInt8) (value : Bytes) :
    appendTlvStr out tag value = out ++ (clampTlv tag value).encode := by
  rw [← appendTlv_eq, appendTlvStr]
  split
  · next hlong =>
    have hlen : (clampTlv tag value).length = 0xffff := by
      rw [Tlv.length, clampTlv, List.length_take, min_eq_left hlong.le]
      rfl
    rw [hlen, appendTlv, appendTlv, clampTlv, List.take_take]
    rfl
  · next hshort =>
    have hvalue : (clampTlv tag value).value = value := List.take_of_length_le (not_lt.mp hshort)
    rw [Tlv.length, hvalue]
    rfl

def u32Tlv (tag : UInt8) (value : UInt32) : Tlv := ⟨tag, putU32 value, by rw [putU32_length]; decide⟩

def u64Tlv (tag : UInt8) (value : UInt64) : Tlv := ⟨tag, putU64 value, by rw [putU64_length]; decide⟩

def u16Tlv (tag : UInt8) (value : UInt16) : Tlv := ⟨tag, putU16 value, by rw [putU16_length]; decide⟩

def optional (c : Prop) [Decidable c] (t : Tlv) : List Tlv := if c then [t] else []

/-- What BuildEvent writes behind the code. -/
def eventTlvs (ev : MonitorEvent) : List Tlv :=
  optional ev.hasWallClock (u64Tlv kTlvWallClockUs ev.wallClockUs) ++
  optional (ev.message ≠ []) (clampTlv kTlvMessage ev.message) ++
  optional ev.hasStateId (u32Tlv kTlvStateId ev.stateId) ++
  optional ev.hasPrevStateId (u32Tlv kTlvPrevStateId ev.prevStateId) ++
  optional ev.hasDetail (u32Tlv kTlvDetail ev.detail) ++
  optional (ev.stateName ≠ []) (clampTlv kTlvStateName ev.stateName) ++
  optional ev.hasHealthCode (u16Tlv kTlvHealthCode ev.healthCode)

theorem append_optional {c : Prop} [Decidable c] (out : Bytes) (t : Tlv) :
    (if c then out ++ t.encode else out) = out ++ encodeTlvs (optional c t) := by
  unfold optional
  split
  · rw [encodeTlvs, List.flatMap_singleton]
  · exact (List.append_nil out).symm

theorem appendTlvU32_eq (out : Bytes) (tag : UInt8) (v : UInt32) :
    appendTlvU32 out tag v = out ++ (u32Tlv tag v).encode := appendTlv_eq (u32Tlv tag v) out

theorem buildEvent_eq (ev : MonitorEvent) :
    buildEvent ev = putU16 ev.code ++ encodeTlvs (eventTlvs ev) := by
  have hu64 (out : Bytes) (tag : UInt8) (v : UInt64) :
      appendTlvU64 out tag v = out ++ (u64Tlv tag v).encode := appendTlv_eq (u64Tlv tag v) out
  have hu16 (out : Bytes) (tag : UInt8) (v : UInt16) :
      appendTlv out tag (putU16 v) 2 = out ++ (u16Tlv tag v).encode := appendTlv_eq (u16Tlv tag v) out
  simp only [buildEvent, eventTlvs, hu64, appendTlvU32_eq, hu16, appendTlvStr_eq, append_optional]
  simp only [encodeTlvs_append, List.append_assoc]

theorem eventField_wallClock (e : MonitorEvent) (v : UInt64) :
    eventField e kTlvWallClockUs (putU64 v) = some { e with wallClockUs := v, hasWallClock := true } := by
  have hset : eventField e kTlvWallClockUs (putU64 v) =
      some { e with wallClockUs := getU64 (putU64 v) 0, hasWallClock := true } := rfl
  rw [hset, getU64_putU64]

theorem eventField_stateId (e : MonitorEvent) (v : UInt32) :
    eventField e kTlvStateId (putU32 v) = some { e with stateId := v, hasStateId := true } := by
  have hset : eventField e kTlvStateId (putU32 v) =
      some { e with stateId := getU32 (putU32 v) 0, hasStateId := true } := rfl
  rw [hset, getU32_putU32]

theorem eventField_prevStateId (e : MonitorEvent) (v : UInt32) :
    eventField e kTlvPrevStateId (putU32 v) = some { e with prevStateId := v, hasPrevStateId := true } := by
  have hset : eventField e kTlvPrevStateId (putU32 v) =
      some { e with prevStateId := getU32 (putU32 v) 0, hasPrevStateId := true } := rfl
  rw [hset, getU32_putU32]

theorem eventField_detail (e : MonitorEvent) (v : UInt32) :
    eventField e kTlvDetail (putU32 v) = some { e with detail := v, hasDetail := true } := by
  have hset : eventField e kTlvDetail (putU32 v) =
      some { e with detail := getU32 (putU32 v) 0, hasDetail := true } := rfl
  rw [hset, getU32_putU32]

theorem eventField_healthCode (e : MonitorEvent) (v : UInt16) :
    eventField e kTlvHealthCode (putU16 v) = some { e with healthCode := v, hasHealthCode := true } := by
  have hset : eventField e kTlvHealthCode (putU16 v) =
      some { e with healthCode := getU16 (putU16 v) 0, hasHealthCode := true } := rfl
  rw [hset, getU16_putU16]

theorem eventField_unknown (e : MonitorEvent) (value : Bytes) (h : tag = 0 ∨ 0x07 < tag) :
    eventField e tag value = some e := by
  have hne (k : UInt8) (h0 : 0 < k) (h7 : k ≤ 0x07) : tag ≠ k := by
    rintro rfl
    rcases h with rfl | h
    · exact absurd h0 (by decide)
    · exact absurd h (UInt8.not_lt.mpr h7)
  rw [eventField, if_neg (hne _ (by decide) (by decide)), if_neg (hne _ (by decide) (by decide)),
    if_neg (hne _ (by decide) (by decide)), if_neg (hne _ (by decide) (by decide)),
    if_neg (hne _ (by decide) (by decide)), if_neg (hne _ (by decide) (by decide)),
    if_neg (hne _ (by decide) (by decide))]

/-- A field that may be left out; `set c` is the state after it was read, or was not. -/
theorem foldTlvs_optional {σ : Type} {field : σ → UInt8 → Bytes → Option σ} {e : σ} {c : Prop}
    [Decidable c] {t : Tlv} (set : Bool → σ) (hunset : set false = e)
    (hset : field e t.tag t.value = some (set true)) (ts : List Tlv) :
    foldTlvs field e (encodeTlvs (optional c t ++ ts)) =
      foldTlvs field (set (decide c)) (encodeTlvs ts) := by
  by_cases hc : c
  · rw [optional, if_pos hc, List.singleton_append, encodeTlvs_cons, foldTlvs_cons, hset,
      Option.bind_some, decide_eq_true hc]
  · rw [optional, if_neg hc, List.nil_append, decide_eq_false hc, hunset]

theorem parseEvent_append {code bytes : Bytes} (hcode : code.length = 2) :
    parseEvent (code ++ bytes) = foldTlvs eventField { code := getU16 code 0 } bytes := by
  have hlen : ¬(code ++ bytes).length < 2 := by
    rw [List.length_append]
    omega
  match code, hcode with
  | [lo, hi], _ =>
    rw [parseEvent, if_neg hlen]
    rfl

/-- One equation for each field, in the order they are written. -/
theorem parseEvent_buildEvent (ev : MonitorEvent) : parseEvent (buildEvent ev) = some ev.received := by
  have hwall (e : MonitorEvent) := @foldTlvs_optional _ eventField e ev.hasWallClock _
    (u64Tlv kTlvWallClockUs ev.wallClockUs)
    (fun c ↦ { e with wallClockUs := if c then ev.wallClockUs else e.wallClockUs,
                      hasWallClock := c || e.hasWallClock }) rfl (eventField_wallClock e _)
  have hmessage (e : MonitorEvent) := @foldTlvs_optional _ eventField e (ev.message ≠ []) _
    (clampTlv kTlvMessage ev.message)
    (fun c ↦ { e with message := if c then ev.message.take kMaxTlvValueSize else e.message }) rfl rfl
  have hstate (e : MonitorEvent) := @foldTlvs_optional _ eventField e ev.hasStateId _
    (u32Tlv kTlvStateId ev.stateId)
    (fun c ↦ { e with stateId := if c then ev.stateId else e.stateId,
                      hasStateId := c || e.hasStateId }) rfl (eventField_stateId e _)
  have hprev (e : MonitorEvent) := @foldTlvs_optional _ eventField e ev.hasPrevStateId _
    (u32Tlv kTlvPrevStateId ev.prevStateId)
    (fun c ↦ { e with prevStateId := if c then ev.prevStateId else e.prevStateId,
                      hasPrevStateId := c || e.hasPrevStateId }) rfl (eventField_prevStateId e _)
  have hdetail (e : MonitorEvent) := @foldTlvs_optional _ eventField e ev.hasDetail _
    (u32Tlv kTlvDetail ev.detail)
    (fun c ↦ { e with detail := if c then ev.detail else e.detail,
                      hasDetail := c || e.hasDetail }) rfl (eventField_detail e _)
  have hname (e : MonitorEvent) := @foldTlvs_optional _ eventField e (ev.stateName ≠ []) _
    (clampTlv kTlvStateName ev.stateName)
    (fun c ↦ { e with stateName := if c then ev.stateName.take kMaxTlvValueSize else e.stateName })
    rfl rfl
  have hhealth (e : MonitorEvent) := @foldTlvs_optional _ eventField e ev.hasHealthCode _
    (u16Tlv kTlvHealthCode ev.healthCode)
    (fun c ↦ { e with healthCode := if c then ev.healthCode else e.healthCode,
                      hasHealthCode := c || e.hasHealthCode }) rfl (eventField_healthCode e _)
  have hstring (value : Bytes) :
      (if value ≠ [] then value.take kMaxTlvValueSize else []) = value.take kMaxTlvValueSize := by
    cases value <;> rfl
  rw [buildEvent_eq, parseEvent_append (putU16_length _), getU16_putU16, eventTlvs, ← List.append_nil (optional ev.hasHealthCode _)]
  simp only [List.append_assoc]
  rw [hwall, hmessage, hstate, hprev, hdetail, hname, hhealth]
  simp only [encodeTlvs, List.flatMap_nil, foldTlvs_nil, decide_eq_true_eq, Bool.decide_eq_true, Bool.or_false, hstring]
  rfl

theorem parseEvent_accepted (h : parseEvent data = some ev) :
    ∃ code ts, code.length = 2 ∧ data = code ++ encodeTlvs ts := by
  rw [parseEvent] at h
  split at h
  · contradiction
  · next hlen =>
    obtain ⟨ts, hts⟩ := exists_encode h
    refine ⟨data.take 2, ts, ?_, ?_⟩
    · rw [List.length_take]
      omega
    · rw [← hts, List.take_append_drop]

theorem parseEvent_unknown {code : Bytes} (hcode : code.length = 2) (pre unknown post : List Tlv)
    (hunknown : ∀ t ∈ unknown, t.tag = 0 ∨ 0x07 < t.tag) :
    parseEvent (code ++ encodeTlvs (pre ++ unknown ++ post)) =
      parseEvent (code ++ encodeTlvs (pre ++ post)) := by
  rw [parseEvent_append hcode, parseEvent_append hcode]
  apply foldTlvs_insert
  intro t ht e
  exact eventField_unknown e t.value (hunknown t ht)

theorem parseEvent_cut {code : Bytes} (hcode : code.length = 2) (pre post : List Tlv) (t : Tlv)
    {k : ℕ} (h0 : 0 < k) (hk : k < t.encode.length) :
    parseEvent ((code ++ encodeTlvs (pre ++ t :: post)).take
      (code.length + (encodeTlvs pre).length + k)) = none := by
  have htake : (code ++ encodeTlvs (pre ++ t :: post)).take
      (code.length + (encodeTlvs pre).length + k) = code ++ (encodeTlvs pre ++ t.encode.take k) := by
    rw [Nat.add_assoc, List.take_length_add_append, encodeTlvs_append, List.take_length_add_append,
      encodeTlvs_cons, List.take_append_of_le_length hk.le]
  rw [htake, parseEvent_append hcode]
  exact foldTlvs_cut h0 hk pre

/-- EVENT payloads come back as they were built, with unknown fields skipped wherever they
stand and nothing accepted that ends inside a field. -/
theorem event_wire :
    (∀ ev, parseEvent (buildEvent ev) = some ev.received) ∧
    ∀ payload ev, parseEvent payload = some ev →
      (∃ code ts, code.length = 2 ∧ payload = code ++ encodeTlvs ts) ∧
      ∀ code pre post, code.length = 2 → payload = code ++ encodeTlvs (pre ++ post) →
        (∀ unknown : List Tlv, (∀ t ∈ unknown, t.tag = 0 ∨ 0x07 < t.tag) →
          parseEvent (code ++ encodeTlvs (pre ++ unknown ++ post)) = some ev) ∧
        ∀ t ts k, post = t :: ts → 0 < k → k < t.encode.length →
          parseEvent (payload.take (code.length + (encodeTlvs pre).length + k)) = none := by
  refine ⟨parseEvent_buildEvent, ?_⟩
  intro payload ev h
  refine ⟨parseEvent_accepted h, ?_⟩
  rintro code pre post hcode rfl
  constructor
  · intro unknown hunknown
    rw [parseEvent_unknown hcode pre unknown post hunknown, h]
  · rintro t ts k rfl h0 hk
    exact parseEvent_cut hcode pre ts t h0 hk

theorem event_wire_detail :
    parseEvent ([5, 0] ++ encodeTlvs ([] ++ [u16Tlv 0x09 1] ++ [u32Tlv kTlvDetail 7])) =
      some { code := 5, detail := 7, hasDetail := true } ∧
    parseEvent (([5, 0] ++ encodeTlvs [u32Tlv kTlvDetail 7]).take 4) = none := by
  have hfull : parseEvent ([5, 0] ++ encodeTlvs [u32Tlv kTlvDetail 7]) =
      some { code := 5, detail := 7, hasDetail := true } := by decide
  obtain ⟨hinsert, hcut⟩ := (event_wire.2 _ _ hfull).2 [5, 0] [] [u32Tlv kTlvDetail 7] rfl rfl
  exact ⟨hinsert [u16Tlv 0x09 1] (by decide), hcut _ [] 2 rfl (by decide) (by decide)⟩

end ZoneMinder.StreamSocket
