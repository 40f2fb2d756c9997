import Mathlib.Data.List.TakeWhile
import ZoneMinder.Lib.Numeral

namespace ZoneMinder.EventStream

open Lib

/-- A neighbour event from the UI. `given` is the field `have`. -/
structure EventHint where
  given : Bool := false
  eventId : ℕ := 0
  sourceEventId : ℕ := 0
  deriving DecidableEq

structure SetEventCommand where
  prev : Bool
  eventId : ℕ
  sourceEventId : ℕ
  deriving DecidableEq

/-- The shifts of the source are in uint64_t, which eight bytes fill. -/
def decodeSetEvent (msgData : Bytes) : SetEventCommand where
  prev := byteAt msgData 1 != 0
  eventId := ofBytes ((msgData.drop 2).take 8)
  sourceEventId := ofBytes ((msgData.drop 10).take 6)

def hintIsFor (hint : EventHint) (currentEventId : ℕ) : Bool :=
  hint.given && hint.sourceEventId == (currentEventId &&& 0xFFFFFFFFFFFF)

inductive NeighbourChoice
  | hint | boundary | wait | timedOut | sameMonitor
  deriving DecidableEq

/-- In microseconds. -/
def kHintWait : ℤ := 10000000

def chooseNeighbour (hint : EventHint) (currentEventId : ℕ) (uiManaged : Bool) (waited : ℤ) :
    NeighbourChoice :=
  if hintIsFor hint currentEventId then
    if hint.eventId ≠ 0 then .hint else .boundary
  else if !uiManaged then .sameMonitor
  else if waited < kHintWait then .wait else .timedOut

def hintResumes (command : SetEventCommand) (endStop endPrev : Bool) : Bool :=
  endStop && command.eventId != 0 && command.prev == endPrev

def SetEventCommand.hint (command : SetEventCommand) : EventHint where
  given := true
  eventId := command.eventId
  sourceEventId := command.sourceEventId

theorem hintIsFor_iff {hint : EventHint} {currentEventId : ℕ} :
    hintIsFor hint currentEventId = true ↔
      hint.given = true ∧ hint.sourceEventId = currentEventId % 2 ^ 48 := by
  rw [hintIsFor, Bool.and_eq_true, beq_iff_eq]
  rw [show 0xFFFFFFFFFFFF = 2 ^ 48 - 1 from rfl, Nat.and_two_pow_sub_one_eq_mod]

inductive IntSize
  | four | eight
  deriving DecidableEq

def IntSize.bytes : IntSize → ℕ
  | four => 4
  | eight => 8

def IntSize.max : IntSize → ℕ
  | four => 2147483647
  | eight => 9223372036854775807

def IntSize.maxText : IntSize → List Char
  | four => ['2', '1', '4', '7', '4', '8', '3', '6', '4', '7']
  | eight => ['9', '2', '2', '3', '3', '7', '2', '0', '3', '6', '8', '5', '4', '7', '7', '5', '8',
      '0', '7']

structure PhpInt (size : IntSize) where
  val : ℤ
  min_le : -size.max - 1 ≤ val
  le_max : val ≤ size.max

inductive Value (size : IntSize)
  | int (n : PhpInt size)
  | string (text : List Char)
  | other

/-- preg_match('/^[0-9]{1,20}$/'); the dollar also matches in front of a last newline. -/
def matchesEventId (text : List Char) : Bool :=
  let line := if text.getLast? = some '\n' then text.dropLast else text
  line.all Char.isDigit && decide (1 ≤ line.length) && decide (line.length ≤ 20)

def digitOf (c : Char) : ℕ := c.toNat - '0'.toNat

def strcmp : List Char → List Char → ℤ
  | [], [] => 0
  | [], _ :: _ => -1
  | _ :: _, [] => 1
  | a :: as, b :: bs => if a = b then strcmp as bs else if a.toNat < b.toNat then -1 else 1

/-- intval of a string whose digits, if it has any, come first. -/
def intval (size : IntSize) (text : List Char) : ℕ :=
  min (numeral 10 ((text.takeWhile Char.isDigit).map digitOf)) size.max

def setEventIdFromRequest (size : IntSize) : Value size → Option ℕ
  | .int n => if n.val ≥ 0 then some n.val.toNat else none
  | .string text =>
    if !matchesEventId text then none
    else
      let value := text.dropWhile (· = '0')
      if value = [] then some 0
      else
        let max := size.maxText
        if value.length > max.length ∨ value.length = max.length ∧ strcmp value max > 0 then none
        else some (intval size value)
  | .other => none

def packEventId64 (size : IntSize) (id : ℕ) : Bytes :=
  if size.bytes ≥ 8 then
    toBytes 4 ((id >>> 32) &&& 0xFFFFFFFF) ++ toBytes 4 (id &&& 0xFFFFFFFF)
  else toBytes 4 0 ++ toBytes 4 id

def packEventId48 (size : IntSize) (id : ℕ) : Bytes :=
  if size.bytes ≥ 8 then toBytes 2 ((id >>> 32) &&& 0xFFFF) ++ toBytes 4 (id &&& 0xFFFFFFFF)
  else toBytes 2 0 ++ toBytes 4 id

/-- On a machine that stores the low byte of the message type first. -/
def packSetEventMessage (size : IntSize) (msgCmd : UInt32) (command : UInt8) (prev : Bool)
    (eventId sourceEventId : ℕ) : Bytes :=
  [byteOf msgCmd 0, byteOf msgCmd 1, byteOf msgCmd 2, byteOf msgCmd 3, command,
    if prev then 1 else 0] ++
  packEventId64 size eventId ++ packEventId48 size sourceEventId

variable {size : IntSize} {id : ℕ} {text as bs : List Char}

def textValue (text : List Char) : ℕ := numeral 10 (text.map digitOf)

theorem digitOf_lt {c : Char} (h : c.isDigit = true) : digitOf c < 10 := by
  simp only [Char.isDigit, Bool.and_eq_true, decide_eq_true_eq] at h
  have hhigh : c.toNat ≤ 57 := h.2
  rw [digitOf]
  change c.toNat - 48 < 10
  omega

theorem digits_lt (h : text.all Char.isDigit = true) : ∀ d ∈ text.map digitOf, d < 10 := by
  intro d hd
  obtain ⟨c, hc, rfl⟩ := List.mem_map.mp hd
  exact digitOf_lt (List.all_eq_true.mp h c hc)

theorem toNat_digit {c : Char} (h : c.isDigit = true) : c.toNat = digitOf c + 48 := by
  simp only [Char.isDigit, Bool.and_eq_true, decide_eq_true_eq] at h
  have hlow : 48 ≤ c.toNat := h.1
  rw [digitOf]
  change c.toNat = c.toNat - 48 + 48
  omega

/-- Strings of digits of one length compare as their values do. -/
theorem strcmp_pos_iff (has : as.all Char.isDigit = true) (hbs : bs.all Char.isDigit = true)
    (hlength : as.length = bs.length) : 0 < strcmp as bs ↔ textValue bs < textValue as := by
  induction as generalizing bs with
  | nil =>
    obtain rfl := List.length_eq_zero_iff.mp hlength.symm
    exact iff_of_false (lt_irrefl _) (lt_irrefl _)
  | cons a as ih =>
    cases bs with
    | nil => contradiction
    | cons b bs =>
      obtain ⟨ha, has'⟩ := (Bool.and_eq_true _ _).mp has
      obtain ⟨hb, hbs'⟩ := (Bool.and_eq_true _ _).mp hbs
      have hlen : as.length = bs.length := Nat.succ.inj hlength
      have hab := toNat_digit ha
      have hbb := toNat_digit hb
      rw [strcmp]
      split
      · next heq =>
        rw [ih has' hbs' hlen, heq, textValue, textValue, textValue, textValue, List.map_cons,
          List.map_cons, numeral_cons, numeral_cons, List.length_map, List.length_map, hlen]
        omega
      split
      · next hlt =>
        refine iff_of_false (by decide) (Nat.not_lt.mpr (Nat.le_of_lt ?_))
        refine numeral_cons_lt (by omega) ?_ (digits_lt has')
        rw [List.length_map, List.length_map, hlen]
      · next hne hge =>
        have hdiff : digitOf b ≠ digitOf a := by
          intro heq
          apply hne
          apply Char.ext
          apply UInt32.toNat_inj.mp
          change a.toNat = b.toNat
          omega
        refine iff_of_true (by decide) ?_
        refine numeral_cons_lt (by omega) ?_ (digits_lt hbs')
        rw [List.length_map, List.length_map, hlen]

theorem textValue_ltrim (text : List Char) :
    textValue (text.dropWhile (· = '0')) = textValue text := by
  induction text with
  | nil => rfl
  | cons c text ih =>
    rw [List.dropWhile_cons]
    split
    · next hzero =>
      have hc : c = '0' := of_decide_eq_true hzero
      have hdigit : digitOf '0' = 0 := rfl
      rw [ih, hc, textValue, textValue, List.map_cons, numeral_cons, hdigit, Nat.zero_mul,
        Nat.zero_add]
    · rfl

theorem head_ltrim (h : text.all Char.isDigit = true) :
    ((text.dropWhile (· = '0')).map digitOf).head? ≠ some 0 := by
  rw [List.head?_map]
  intro hzero
  obtain ⟨c, hc, hdigit⟩ := Option.map_eq_some_iff.mp hzero
  have hnot := List.head?_dropWhile_not (· = '0') text
  have hmem := List.dropWhile_subset _ (List.mem_of_mem_head? hc)
  have hval := toNat_digit (List.all_eq_true.mp h c hmem)
  rw [hc] at hnot
  have hne : c ≠ '0' := by simpa using hnot
  apply hne
  apply Char.ext
  apply UInt32.toNat_inj.mp
  change c.toNat = 48
  omega

theorem maxText_digits (size : IntSize) : size.maxText.all Char.isDigit = true ∧
    (size.maxText.map digitOf).head? ≠ some 0 ∧ textValue size.maxText = size.max := by
  cases size <;> decide

theorem matchesEventId_digits (h : text.all Char.isDigit = true) (hne : text ≠ [])
    (hlength : text.length ≤ 20) : matchesEventId text = true := by
  have hline : text.getLast? ≠ some '\n' := by
    intro hlast
    have hdigit := List.all_eq_true.mp h '\n' (List.mem_of_getLast? hlast)
    contradiction
  simp only [matchesEventId, hline, if_false, h, Bool.true_and, Bool.and_eq_true,
    decide_eq_true_eq]
  exact ⟨List.length_pos_iff.mpr hne, hlength⟩

/-- A string of digits is accepted if its value fits an int, and gives that value. -/
theorem setEventIdFromRequest_digits (h : text.all Char.isDigit = true) (hne : text ≠ [])
    (hlength : text.length ≤ 20) :
    setEventIdFromRequest size (.string text) =
      if textValue text ≤ size.max then some (textValue text) else none := by
  obtain ⟨hmaxDigits, hmaxHead, hmax⟩ := maxText_digits size
  have hvalue : (text.dropWhile (· = '0')).all Char.isDigit = true := by
    rw [List.all_eq_true] at h ⊢
    exact fun c hc ↦ h c (List.dropWhile_subset _ hc)
  have hhead := head_ltrim h
  have htrim := textValue_ltrim text
  simp only [setEventIdFromRequest, matchesEventId_digits h hne hlength, Bool.not_true,
    Bool.false_eq_true, if_false]
  generalize text.dropWhile (· = '0') = value at hvalue hhead htrim ⊢
  rw [← htrim]
  split
  · next hnil =>
    rw [hnil]
    exact (if_pos (Nat.zero_le _)).symm
  split
  · next hbig =>
    have hgreater : size.max < textValue value := by
      rw [← hmax]
      rcases hbig with hlong | ⟨heq, hcmp⟩
      · refine numeral_lt_of_length ?_ (digits_lt hmaxDigits) hhead (by decide)
        rwa [List.length_map, List.length_map]
      · exact (strcmp_pos_iff hvalue hmaxDigits heq).mp hcmp
    rw [if_neg (Nat.not_le.mpr hgreater)]
  · next hsmall =>
    have hle : textValue value ≤ size.max := by
      rw [not_or, not_and, Nat.not_lt] at hsmall
      rw [← hmax]
      rcases Nat.lt_or_eq_of_le hsmall.1 with hshort | heq
      · refine (numeral_lt_of_length ?_ (digits_lt hvalue) hmaxHead (by decide)).le
        rwa [List.length_map, List.length_map]
      · exact Nat.le_of_not_lt fun hlt ↦
          hsmall.2 heq ((strcmp_pos_iff hvalue hmaxDigits heq).mpr hlt)
    have hall : value.takeWhile Char.isDigit = value :=
      List.takeWhile_eq_self_iff.mpr (List.all_eq_true.mp hvalue)
    rw [if_pos hle, intval, hall]
    exact congrArg some (Nat.min_eq_left hle)

theorem setEventIdFromRequest_le {value : Value size}
    (h : setEventIdFromRequest size value = some id) : id ≤ size.max := by
  cases value with
  | int n =>
    have hmax := n.le_max
    simp only [setEventIdFromRequest] at h
    split at h
    · obtain rfl := Option.some.inj h
      omega
    · contradiction
  | string text =>
    simp only [setEventIdFromRequest] at h
    split at h
    · contradiction
    split at h
    · rw [← Option.some.inj h]
      exact Nat.zero_le _
    split at h
    · contradiction
    · rw [← Option.some.inj h]
      exact Nat.min_le_right _ _
  | other => contradiction

theorem and_low (v : ℕ) : v &&& 0xFFFFFFFF = v % 2 ^ 32 := Nat.and_two_pow_sub_one_eq_mod v 32

theorem and_half (v : ℕ) : v &&& 0xFFFF = v % 2 ^ 16 := Nat.and_two_pow_sub_one_eq_mod v 16

theorem packEventId64_length (size : IntSize) (id : ℕ) : (packEventId64 size id).length = 8 := by
  cases size <;> rfl

theorem packEventId48_length (size : IntSize) (id : ℕ) : (packEventId48 size id).length = 6 := by
  cases size <;> rfl

theorem ofBytes_packEventId64 (h : id ≤ size.max) : ofBytes (packEventId64 size id) = id := by
  cases size with
  | four =>
    have hid : id ≤ 2147483647 := h
    change ofBytes (toBytes 4 0 ++ toBytes 4 id) = id
    rw [ofBytes_append, ofBytes_toBytes, ofBytes_toBytes, toBytes_length]
    omega
  | eight =>
    have hid : id ≤ 9223372036854775807 := h
    change ofBytes (toBytes 4 ((id >>> 32) &&& 0xFFFFFFFF) ++ toBytes 4 (id &&& 0xFFFFFFFF)) = id
    rw [ofBytes_append, ofBytes_toBytes, ofBytes_toBytes, toBytes_length, and_low, and_low,
      Nat.shiftRight_eq_div_pow]
    omega

theorem ofBytes_packEventId48 (h : id ≤ size.max) :
    ofBytes (packEventId48 size id) = id % 2 ^ 48 := by
  cases size with
  | four =>
    have hid : id ≤ 2147483647 := h
    change ofBytes (toBytes 2 0 ++ toBytes 4 id) = id % 2 ^ 48
    rw [ofBytes_append, ofBytes_toBytes, ofBytes_toBytes, toBytes_length]
    omega
  | eight =>
    change ofBytes (toBytes 2 ((id >>> 32) &&& 0xFFFF) ++ toBytes 4 (id &&& 0xFFFFFFFF)) =
      id % 2 ^ 48
    rw [ofBytes_append, ofBytes_toBytes, ofBytes_toBytes, toBytes_length, and_low, and_half,
      Nat.shiftRight_eq_div_pow]
    omega

theorem decode_packSetEventMessage {eventId sourceEventId : ℕ} (hevent : eventId ≤ size.max)
    (hsource : sourceEventId ≤ size.max) (msgCmd : UInt32) (command : UInt8) (prev : Bool) :
    decodeSetEvent ((packSetEventMessage size msgCmd command prev eventId sourceEventId).drop 4) =
      ⟨prev, eventId, sourceEventId % 2 ^ 48⟩ := by
  have hdata : (packSetEventMessage size msgCmd command prev eventId sourceEventId).drop 4 =
      command :: (if prev then 1 else 0) ::
        (packEventId64 size eventId ++ packEventId48 size sourceEventId) := by
    simp only [packSetEventMessage, List.cons_append, List.nil_append, List.drop_succ_cons,
      List.drop_zero]
  have hlong := packEventId64_length size eventId
  have hshort := packEventId48_length size sourceEventId
  rw [hdata, decodeSetEvent]
  have hprev : (byteAt (command :: (if prev then 1 else 0) ::
      (packEventId64 size eventId ++ packEventId48 size sourceEventId)) 1 != 0) = prev := by
    cases prev <;> rfl
  have htarget : ((command :: (if prev then 1 else 0) ::
      (packEventId64 size eventId ++ packEventId48 size sourceEventId)).drop 2).take 8 =
        packEventId64 size eventId := by
    rw [List.drop_succ_cons, List.drop_succ_cons, List.drop_zero, ← hlong, List.take_left]
  have hsourceBytes : ((command :: (if prev then 1 else 0) ::
      (packEventId64 size eventId ++ packEventId48 size sourceEventId)).drop 10).take 6 =
        packEventId48 size sourceEventId := by
    rw [List.drop_succ_cons, List.drop_succ_cons, ← hlong, List.drop_left, ← hshort,
      List.take_length]
  rw [hprev, htarget, hsourceBytes, ofBytes_packEventId64 hevent, ofBytes_packEventId48 hsource]

/-- What the web interface accepts and packs is what the stream decodes and matches. -/
theorem setEvent_agrees (size : IntSize) :
    (∀ (target source : Value size) (eventId sourceEventId : ℕ),
      setEventIdFromRequest size target = some eventId →
      setEventIdFromRequest size source = some sourceEventId →
      ∀ (msgCmd : UInt32) (command : UInt8) (prev : Bool),
        let decoded := decodeSetEvent
          ((packSetEventMessage size msgCmd command prev eventId sourceEventId).drop 4)
        decoded = ⟨prev, eventId, sourceEventId % 2 ^ 48⟩ ∧ eventId < 2 ^ 64 ∧
        ∀ currentEventId, sourceEventId < 2 ^ 48 → currentEventId < 2 ^ 48 →
          (hintIsFor decoded.hint currentEventId = true ↔ sourceEventId = currentEventId)) ∧
    ∀ text : List Char, text.all Char.isDigit = true → text ≠ [] → text.length ≤ 20 →
      setEventIdFromRequest size (.string text) =
        if textValue text ≤ size.max then some (textValue text) else none := by
  refine ⟨fun target source eventId sourceEventId htarget hsource msgCmd command prev ↦ ?_, ?_⟩
  · have hevent := setEventIdFromRequest_le htarget
    have hdecoded := decode_packSetEventMessage hevent (setEventIdFromRequest_le hsource) msgCmd
      command prev
    intro decoded
    refine ⟨hdecoded, ?_, fun currentEventId hid hcurrent ↦ ?_⟩
    · cases size
      · exact hevent.trans_lt (by decide)
      · exact hevent.trans_lt (by decide)
    · have hhint : decoded.hint = ⟨true, eventId, sourceEventId % 2 ^ 48⟩ := by
        rw [show decoded = _ from hdecoded]
        rfl
      rw [hintIsFor_iff, hhint, Nat.mod_eq_of_lt hid, Nat.mod_eq_of_lt hcurrent]
      exact and_iff_right rfl
  · intro text h hne hlength
    exact setEventIdFromRequest_digits h hne hlength

theorem setEvent_agrees_next :
    let decoded := decodeSetEvent ((packSetEventMessage .eight 1 22 false 102 101).drop 4)
    decoded = ⟨false, 102, 101⟩ ∧ hintIsFor decoded.hint 101 = true := by
  have htarget : setEventIdFromRequest .eight (.string ['0', '1', '0', '2']) = some 102 := by decide
  have hsource : setEventIdFromRequest .eight (.string ['1', '0', '1']) = some 101 := by decide
  obtain ⟨hdecoded, -, hhint⟩ := (setEvent_agrees .eight).1 _ _ _ _ htarget hsource 1 22 false
  exact ⟨hdecoded, (hhint 101 (by decide) (by decide)).mpr rfl⟩

end ZoneMinder.EventStream
