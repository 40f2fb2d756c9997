import Mathlib.Data.Finset.Insert
import ZoneMinder.Lib.Hold
import ZoneMinder.Lib.Lists
import ZoneMinder.Zone.CheckAlarms

set_option linter.dupNamespace false

namespace ZoneMinder.Zone

open Lib ZoneMinder.Poly

structure MotionConfig extends CheckConfig where
  optControl : Bool
  trackMotion : Bool

/-- A zone, and what CheckAlarms has returned for it in the frame; none when it was not called. -/
structure Checked where
  zone : Zone
  result : Option Bool := none

/-- The variables of DetectMotion. -/
structure Tally where
  alarm : Bool := false
  score : ℕ := 0
  zoneSet : Finset String
  topScore : ℤ := -1
  alarmCentre : Vector2 := ⟨0, 0⟩

/-- What DetectMotion returns and leaves; the centre that it shares is none if it returns before. -/
structure Detection where
  score : ℕ
  zoneSet : Finset String
  zones : List Checked
  shared : Option Vector2 := none

namespace Tally

variable (t : Tally) (zone : Zone)

/-- A zone that is alarmed adds its score. -/
def add : Tally :=
  { t with score := t.score + zone.stats.score, zoneSet := insert zone.label t.zoneSet }

/-- The centre of the zone with the highest score so far is the one to follow. -/
def follow (config : MotionConfig) (higher : Bool) : Tally :=
  if config.optControl && config.trackMotion && higher then
    { t with topScore := zone.stats.score, alarmCentre := zone.stats.alarmCentre }
  else t

end Tally

section

variable (D : Doubles) (config : MotionConfig) (beyond : Beyond) (delta : GrayImage)

/-- Returns whether the alarm is extended. -/
def Zone.checkExtendAlarmCount (zone : Zone) : Bool × Zone :=
  if zone.extendAlarmCount ≠ 0 then
    (true, { zone with extendAlarmCount := zone.extendAlarmCount - 1 })
  else (false, zone)

def checkPreclusive (t : Tally) (zone : Zone) : Except Fault (Tally × Checked) := do
  let oldScore := zone.stats.score
  let oldAlarmed := zone.alarmed
  let (success, zone) ← zone.checkAlarms config.toCheckConfig beyond delta
  if success then .ok ({ t.add zone with alarm := true }, ⟨zone.setAlarm, some true⟩)
  else if oldAlarmed then
    let zone := if oldScore > 0 then { zone with extendAlarmCount := zone.extendAlarmFrames } else zone
    let (extended, zone) := zone.checkExtendAlarmCount
    if extended then .ok ({ t with alarm := true }, ⟨zone.setAlarm, some false⟩)
    else .ok (t, ⟨zone.clearAlarm, some false⟩)
  else .ok (t, ⟨zone, some false⟩)

/-- The check of a zone that is not preclusive; `raise` is what its alarm adds. -/
def checkZone (raise : Tally → Zone → Tally) (t : Tally) (zone : Zone) :
    Except Fault (Tally × Checked) := do
  let (success, zone) ← zone.checkAlarms config.toCheckConfig beyond delta
  if success then .ok (raise t zone, ⟨zone.setAlarm, some true⟩)
  else .ok (t, ⟨zone, some false⟩)

def checkActive : Tally → Zone → Except Fault (Tally × Checked) :=
  checkZone config beyond delta fun t zone ↦
    Tally.follow { t.add zone with alarm := true } zone config (zone.stats.score > t.topScore)

/-- The top score is compared as an unsigned number. -/
def checkInclusive : Tally → Zone → Except Fault (Tally × Checked) :=
  checkZone config beyond delta fun t zone ↦
    (t.add zone).follow zone config (zone.stats.score > t.topScore % 2 ^ 32)

def checkExclusive : Tally → Zone → Except Fault (Tally × Checked) :=
  checkZone config beyond delta fun t zone ↦ { t.add zone with alarm := true }

/-- A loop over the zones of one type. -/
def pass (type : ZoneType) (check : Tally → Zone → Except Fault (Tally × Checked)) :
    Tally → List Checked → Except Fault (Tally × List Checked)
  | t, [] => .ok (t, [])
  | t, c :: cs =>
    if c.zone.type = type then do
      let (t, c) ← check t c.zone
      let (t, cs) ← pass type check t cs
      .ok (t, c :: cs)
    else do
      let (t, cs) ← pass type check t cs
      .ok (t, c :: cs)

/-- The delta with its inactive zones black. -/
def blanked (zones : List Zone) : GrayImage :=
  zones.foldl (fun delta zone ↦
    if zone.type = .inactive then
      (fill D 1 0 zone.polygon delta).get (fill_isSome ..)
    else delta) delta

/-- The zones that follow the preclusive ones: the active, then the inclusive if one of them is
alarmed, or else the exclusive. -/
def detectOthers (t : Tally) (zones : List Checked) : Except Fault (Tally × List Checked) := do
  let (t, zones) ← pass .active (checkActive config beyond delta) t zones
  if t.alarm then pass .inclusive (checkInclusive config beyond delta) t zones
  else pass .exclusive (checkExclusive config beyond delta) t zones

/-- The frame is what Delta makes of it, none when it fails. -/
def detectMotion (zones : List Zone) (delta : Option GrayImage) (zoneSet : Finset String) :
    Except Fault Detection :=
  match zones, delta with
  | [], _ => .ok { score := 0, zoneSet, zones := [] }
  | zones, none => .ok { score := 0, zoneSet, zones := zones.map ({ zone := · }) }
  | zones, some delta => do
    let delta := blanked D delta zones
    let cleared := zones.map fun zone ↦
      { zone := if zone.type = .preclusive then zone else zone.clearAlarm }
    let (t, checked) ← pass .preclusive (checkPreclusive config beyond delta) { zoneSet } cleared
    let (t, checked) ←
      if t.alarm then .ok ({ t with alarm := false, score := 0 }, checked)
      else detectOthers config beyond delta t checked
    .ok
      { score := if t.score ≠ 0 then t.score else t.alarm.toNat
        zoneSet := t.zoneSet
        zones := checked
        shared := some (if t.topScore > 0 then t.alarmCentre else ⟨-1, -1⟩) }

/-- DetectMotion on one frame after another. -/
def detections : List Zone → List (GrayImage × Finset String) → Except Fault (List Detection)
  | _, [] => .ok []
  | zones, (delta, zoneSet) :: frames => do
    let d ← detectMotion D config beyond zones (some delta) zoneSet
    let ds ← detections (d.zones.map Checked.zone) frames
    .ok (d :: ds)

end

namespace Detection

variable (d : Detection) (i : ℕ)

/-- A preclusive zone is kept alarmed. -/
def keeps : Bool := d.zones.any fun c ↦ decide (c.zone.type = .preclusive) && c.zone.alarmed

/-- CheckAlarms succeeded in an active zone. -/
def activeAlarmed : Bool :=
  d.zones.any fun c ↦ decide (c.zone.type = .active) && c.result == some true

def alarmed : Bool := (d.zones[i]?.map (·.zone.alarmed)).getD false

def succeeded : Bool := (d.zones[i]?.map (·.result == some true)).getD false

end Detection

/-- What of a preclusive zone says how long it stays alarmed. -/
def Zone.hold (zone : Zone) : Hold where
  fired := decide (0 < zone.stats.score)
  held := zone.alarmed
  count := zone.extendAlarmCount

section

variable {D : Doubles} {config : MotionConfig} {beyond : Beyond} {delta : GrayImage}
  {zone zone' : Zone} {t t' : Tally} {c : Checked} {success : Bool}

theorem checkAlarms_ok
    (h : zone.checkAlarms config.toCheckConfig beyond delta = .ok (success, zone')) :
    zone.Kept zone' ∧ (success = false → zone'.stats.score = 0) ∧
      (success = true → zone.type = .preclusive → 0 < zone'.stats.score) := by
  have hends := Zone.Ends.checkAlarms config.toCheckConfig beyond delta zone
  rwa [h] at hends

/-- The preclusive pass holds the alarm of a zone as its checks raise it. -/
theorem checkPreclusive_ok (htype : zone.type = .preclusive)
    (h : checkPreclusive config beyond delta t zone = .ok (t', c)) :
    c.zone.toZoneSetup = zone.toZoneSetup ∧
      (∃ b, c.result = some b ∧ c.zone.hold = zone.hold.step zone.extendAlarmFrames b) ∧
      t'.alarm = (t.alarm || c.zone.alarmed) := by
  obtain ⟨⟨success, zone'⟩, hcheck, h⟩ := of_bind_ok h
  obtain ⟨⟨hsetup, hcount, halarmed⟩, hfail, hscore⟩ := checkAlarms_ok hcheck
  cases success with
  | true =>
    obtain ⟨rfl, rfl⟩ := Prod.mk.inj (Except.ok.inj h)
    refine ⟨hsetup, ⟨true, rfl, ?_⟩, (Bool.or_true _).symm⟩
    simp [Zone.hold, Zone.setAlarm, Hold.step, hcount, hscore rfl htype]
  | false =>
    have hzero := hfail rfl
    dsimp only at h
    rw [if_neg Bool.false_ne_true] at h
    split at h
    · next hold =>
      obtain ⟨armed, harmed, hsetup', hzero', hcount'⟩ : ∃ armed : Zone,
          (if zone.stats.score > 0 then
            { zone' with extendAlarmCount := zone'.extendAlarmFrames } else zone') = armed ∧
          armed.toZoneSetup = zone.toZoneSetup ∧ armed.stats.score = 0 ∧
          armed.extendAlarmCount =
            if 0 < zone.stats.score then zone.extendAlarmFrames else zone.extendAlarmCount := by
        split
        · exact ⟨_, rfl, hsetup, hzero, by rw [hsetup]⟩
        · exact ⟨_, rfl, hsetup, hzero, hcount⟩
      rw [harmed, Zone.checkExtendAlarmCount] at h
      have hstep : zone.hold.step zone.extendAlarmFrames false =
          ⟨false, decide (armed.extendAlarmCount ≠ 0), armed.extendAlarmCount - 1⟩ := by
        rw [Hold.step, if_neg Bool.false_ne_true, hcount']
        simp [Zone.hold, hold]
      by_cases hleft : armed.extendAlarmCount = 0
      · rw [if_neg (not_not.mpr hleft), if_neg Bool.false_ne_true] at h
        obtain ⟨rfl, rfl⟩ := Prod.mk.inj (Except.ok.inj h)
        refine ⟨hsetup', ⟨false, rfl, ?_⟩, (Bool.or_false _).symm⟩
        rw [hstep]
        simp [Zone.hold, Zone.clearAlarm, hzero', hleft]
      · rw [if_pos hleft, if_pos rfl] at h
        obtain ⟨rfl, rfl⟩ := Prod.mk.inj (Except.ok.inj h)
        refine ⟨hsetup', ⟨false, rfl, ?_⟩, (Bool.or_true _).symm⟩
        rw [hstep]
        simp [Zone.hold, Zone.setAlarm, hzero', hleft]
    · next hold =>
      obtain ⟨rfl, rfl⟩ := Prod.mk.inj (Except.ok.inj h)
      rw [Bool.not_eq_true] at hold
      refine ⟨hsetup, ⟨false, rfl, ?_⟩, ?_⟩
      · simp [Zone.hold, Hold.step, hcount, hzero, hold, halarmed]
      · simp [halarmed]

theorem alarm_follow (higher : Bool) : (t.follow zone config higher).alarm = t.alarm := by
  rw [Tally.follow]
  split <;> rfl

variable {raise : Tally → Zone → Tally}

theorem checkZone_ok (h : checkZone config beyond delta raise t zone = .ok (t', c)) :
    c.zone.toZoneSetup = zone.toZoneSetup ∧ c.result.isSome = true := by
  obtain ⟨⟨success, zone'⟩, hcheck, h⟩ := of_bind_ok h
  have hsetup := (checkAlarms_ok hcheck).1.setup
  cases success with
  | true =>
    obtain ⟨rfl, rfl⟩ := Prod.mk.inj (Except.ok.inj h)
    exact ⟨hsetup, rfl⟩
  | false =>
    obtain ⟨rfl, rfl⟩ := Prod.mk.inj (Except.ok.inj h)
    exact ⟨hsetup, rfl⟩

theorem checkZone_alarm (hraise : ∀ t zone, (raise t zone).alarm = true)
    (h : checkZone config beyond delta raise t zone = .ok (t', c)) :
    t'.alarm = (t.alarm || c.result == some true) := by
  obtain ⟨⟨success, zone'⟩, -, h⟩ := of_bind_ok h
  cases success with
  | true =>
    obtain ⟨rfl, rfl⟩ := Prod.mk.inj (Except.ok.inj h)
    exact (hraise t zone').trans (Bool.or_true _).symm
  | false =>
    obtain ⟨rfl, rfl⟩ := Prod.mk.inj (Except.ok.inj h)
    exact (Bool.or_false _).symm

end

section

variable {type : ZoneType} {check : Tally → Zone → Except Fault (Tally × Checked)}
  {t t' : Tally} {cs cs' : List Checked} {c c₁ c' : Checked} {P : Zone → Checked → Prop}

/-- What a pass makes of a zone: of its own type what the check does, and nothing of another. -/
structure Passed (type : ZoneType) (P : Zone → Checked → Prop) (c c' : Checked) : Prop where
  setup : c'.zone.toZoneSetup = c.zone.toZoneSetup
  own : c.zone.type = type → P c.zone c'
  other : c.zone.type ≠ type → c' = c

theorem pass_passed (hcheck : ∀ t zone t' c, zone.type = type → check t zone = .ok (t', c) →
      c.zone.toZoneSetup = zone.toZoneSetup ∧ P zone c)
    (h : pass type check t cs = .ok (t', cs')) : List.Forall₂ (Passed type P) cs cs' := by
  induction cs generalizing t t' cs' with
  | nil =>
    obtain ⟨-, rfl⟩ := Prod.mk.inj (Except.ok.inj h)
    exact .nil
  | cons c cs ih =>
    rw [pass] at h
    split at h
    · next htype =>
      obtain ⟨⟨t₁, c₁⟩, hc, h⟩ := of_bind_ok h
      obtain ⟨⟨t₂, cs₂⟩, hcs, h⟩ := of_bind_ok h
      obtain ⟨-, rfl⟩ := Prod.mk.inj (Except.ok.inj h)
      obtain ⟨hsetup, hP⟩ := hcheck t c.zone t₁ c₁ htype hc
      exact .cons ⟨hsetup, fun _ ↦ hP, fun hne ↦ absurd htype hne⟩ (ih hcs)
    · next htype =>
      obtain ⟨⟨t₂, cs₂⟩, hcs, h⟩ := of_bind_ok h
      obtain ⟨-, rfl⟩ := Prod.mk.inj (Except.ok.inj h)
      exact .cons ⟨rfl, fun heq ↦ absurd heq htype, fun _ ↦ rfl⟩ (ih hcs)

theorem pass_alarm {raises : Checked → Bool}
    (hcheck : ∀ t zone t' c, zone.type = type → check t zone = .ok (t', c) →
      c.zone.type = type ∧ t'.alarm = (t.alarm || raises c))
    (h : pass type check t cs = .ok (t', cs')) :
    t'.alarm = (t.alarm || cs'.any fun c ↦ decide (c.zone.type = type) && raises c) := by
  induction cs generalizing t t' cs' with
  | nil =>
    obtain ⟨rfl, rfl⟩ := Prod.mk.inj (Except.ok.inj h)
    exact (Bool.or_false _).symm
  | cons c cs ih =>
    rw [pass] at h
    split at h
    · next htype =>
      obtain ⟨⟨t₁, c₁⟩, hc, h⟩ := of_bind_ok h
      obtain ⟨⟨t₂, cs₂⟩, hcs, h⟩ := of_bind_ok h
      obtain ⟨rfl, rfl⟩ := Prod.mk.inj (Except.ok.inj h)
      obtain ⟨htype', halarm⟩ := hcheck t c.zone t₁ c₁ htype hc
      rw [ih hcs, halarm, List.any_cons, decide_eq_true htype', Bool.true_and, Bool.or_assoc]
    · next htype =>
      obtain ⟨⟨t₂, cs₂⟩, hcs, h⟩ := of_bind_ok h
      obtain ⟨rfl, rfl⟩ := Prod.mk.inj (Except.ok.inj h)
      rw [ih hcs, List.any_cons, decide_eq_false htype, Bool.false_and, Bool.false_or]

theorem Passed.congr (h : Passed type P c c') {type' : ZoneType} (hne : type' ≠ type)
    (f : Checked → Bool) : (decide (c'.zone.type = type') && f c') =
      (decide (c.zone.type = type') && f c) := by
  by_cases htype : c.zone.type = type'
  · rw [h.other fun heq ↦ hne (htype.symm.trans heq)]
  · have htype' : c'.zone.type ≠ type' := by rwa [h.setup]
    rw [decide_eq_false htype, decide_eq_false htype', Bool.false_and, Bool.false_and]

theorem Passed.both {type' : ZoneType} (h : Passed type P c c₁) (h' : Passed type' P c₁ c')
    (hne : type ≠ type') :
    c'.zone.toZoneSetup = c.zone.toZoneSetup ∧
      (c.zone.type = type ∨ c.zone.type = type' → P c.zone c') ∧
      (c.zone.type ≠ type → c.zone.type ≠ type' → c' = c) := by
  refine ⟨h'.setup.trans h.setup, ?_, fun htype htype' ↦ ?_⟩
  · rintro (htype | htype)
    · rw [h'.other (by rwa [h.setup, htype])]
      exact h.own htype
    · obtain rfl := h.other fun heq ↦ hne (heq.symm.trans htype)
      exact h'.own htype
  · rw [h'.other (by rwa [h.setup]), h.other htype]

end

section

variable {D : Doubles} {config : MotionConfig} {beyond : Beyond} {delta : GrayImage}
  {t t' : Tally} {cs cs' : List Checked} {zones : List Zone} {zoneSet : Finset String}
  {d : Detection}

/-- What the passes over the other zones do to each, by whether an active one is alarmed. -/
structure Others (raised : Bool) (c c' : Checked) : Prop where
  setup : c'.zone.toZoneSetup = c.zone.toZoneSetup
  active : c.zone.type = .active → c'.result.isSome = true
  inclusive : c.zone.type = .inclusive → c.result = none → c'.result.isSome = raised
  exclusive : c.zone.type = .exclusive → c.result = none → c'.result.isSome = !raised
  preclusive : c.zone.type = .preclusive → c' = c

theorem detectOthers_ok (halarm : t.alarm = false)
    (h : detectOthers config beyond delta t cs = .ok (t', cs')) :
    List.Forall₂ (Others (cs'.any fun c ↦ decide (c.zone.type = .active) && c.result == some true))
      cs cs' := by
  obtain ⟨⟨t₁, cs₁⟩, hactive, h⟩ := of_bind_ok h
  have hfirst : List.Forall₂ (Passed .active fun _ c ↦ c.result.isSome = true) cs cs₁ :=
    pass_passed (fun _ _ _ _ _ hc ↦ checkZone_ok hc) hactive
  have hraised : t₁.alarm =
      cs₁.any fun c ↦ decide (c.zone.type = .active) && c.result == some true := by
    rw [← Bool.false_or (cs₁.any _), ← halarm]
    refine pass_alarm (fun t zone t' c htype hc ↦ ⟨?_, ?_⟩) hactive
    · rw [(checkZone_ok hc).1, htype]
    · exact checkZone_alarm (fun _ _ ↦ alarm_follow _) hc
  have hsecond {type : ZoneType} (hne : ZoneType.active ≠ type)
      (hpass : List.Forall₂ (Passed type fun _ c ↦ c.result.isSome = true) cs₁ cs') :
      (cs'.any fun c ↦ decide (c.zone.type = .active) && c.result == some true) = t₁.alarm := by
    rw [hraised]
    exact any_of_forall₂ (fun _ _ hc ↦ hc.congr hne fun c ↦ c.result == some true) hpass
  dsimp only at h
  split at h
  · next hyes =>
    have hpass : List.Forall₂ (Passed .inclusive fun _ c ↦ c.result.isSome = true) cs₁ cs' :=
      pass_passed (fun _ _ _ _ _ hc ↦ checkZone_ok hc) h
    rw [hsecond (by decide) hpass, hyes]
    refine forall₂_comp (fun c c₁ c' hc hc₁ ↦ ?_) hfirst hpass
    obtain ⟨hsetup, hown, hother⟩ := hc.both hc₁ (by decide)
    refine ⟨hsetup, fun htype ↦ hown (.inl htype), fun htype _ ↦ hown (.inr htype), ?_, ?_⟩
    · intro htype hnone
      rw [hother (by rw [htype]; decide) (by rw [htype]; decide), hnone]
      rfl
    · intro htype
      exact hother (by rw [htype]; decide) (by rw [htype]; decide)
  · next hno =>
    have hpass : List.Forall₂ (Passed .exclusive fun _ c ↦ c.result.isSome = true) cs₁ cs' :=
      pass_passed (fun _ _ _ _ _ hc ↦ checkZone_ok hc) h
    rw [hsecond (by decide) hpass, Bool.eq_false_iff.mpr hno]
    refine forall₂_comp (fun c c₁ c' hc hc₁ ↦ ?_) hfirst hpass
    obtain ⟨hsetup, hown, hother⟩ := hc.both hc₁ (by decide)
    refine ⟨hsetup, fun htype ↦ hown (.inl htype), ?_, fun htype _ ↦ hown (.inr htype), ?_⟩
    · intro htype hnone
      rw [hother (by rw [htype]; decide) (by rw [htype]; decide), hnone]
      rfl
    · intro htype
      exact hother (by rw [htype]; decide) (by rw [htype]; decide)

/-- What a frame does to each zone. -/
structure Framed (zone : Zone) (c : Checked) : Prop where
  setup : c.zone.toZoneSetup = zone.toZoneSetup
  preclusive : zone.type = .preclusive →
    ∃ b, c.result = some b ∧ c.zone.hold = zone.hold.step zone.extendAlarmFrames b

/-- What is looked at in a frame depends on what its preclusive zones keep. -/
structure Detection.Looked (d : Detection) : Prop where
  suppressed : d.keeps = true →
    d.score = 0 ∧ ∀ c ∈ d.zones, c.zone.type ≠ .preclusive → c.result = none
  others : d.keeps = false → ∀ c ∈ d.zones,
    (c.zone.type = .active → c.result.isSome = true) ∧
    (c.zone.type = .inclusive → c.result.isSome = d.activeAlarmed) ∧
    (c.zone.type = .exclusive → c.result.isSome = !d.activeAlarmed)

theorem detectMotion_ok (h : detectMotion D config beyond zones (some delta) zoneSet = .ok d) :
    List.Forall₂ Framed zones d.zones ∧ d.Looked := by
  cases zones with
  | nil =>
    obtain rfl := Except.ok.inj h
    exact ⟨.nil, fun hkeeps ↦ absurd hkeeps Bool.false_ne_true,
      fun _ _ hc ↦ absurd hc List.not_mem_nil⟩
  | cons zone zones =>
    obtain ⟨⟨t₁, cs₁⟩, hpreclusive, h⟩ := of_bind_ok h
    have hpass := pass_passed (fun _ _ _ _ htype hc ↦
      have hok := checkPreclusive_ok htype hc
      ⟨hok.1, hok.2.1⟩) hpreclusive
    have hkeeps : t₁.alarm =
        cs₁.any fun c ↦ decide (c.zone.type = .preclusive) && c.zone.alarmed := by
      rw [← Bool.false_or (cs₁.any _)]
      refine pass_alarm (fun t zone t' c htype hc ↦ ?_) hpreclusive
      obtain ⟨hsetup, -, halarm⟩ := checkPreclusive_ok htype hc
      exact ⟨by rw [hsetup, htype], halarm⟩
    have hframed : List.Forall₂ Framed (zone :: zones) cs₁ := by
      refine (List.forall₂_map_left_iff.mp hpass).imp fun z c hc ↦ ⟨?_, fun htype ↦ ?_⟩
      · rw [hc.setup]
        split <;> rfl
      · have hz := hc.own (by rw [if_pos htype, htype])
        rwa [if_pos htype] at hz
    have hblank : ∀ c ∈ cs₁, c.zone.type ≠ .preclusive → c.result = none := by
      intro c hc htype
      obtain ⟨c₀, hc₀, hrel⟩ := exists_left_of_forall₂ hpass hc
      obtain ⟨z, -, rfl⟩ := List.mem_map.mp hc₀
      rw [hrel.setup] at htype
      rw [hrel.other htype]
    dsimp only at h
    by_cases halarm : t₁.alarm = true
    · rw [if_pos halarm] at h
      obtain rfl := Except.ok.inj h
      refine ⟨hframed, fun _ ↦ ⟨rfl, hblank⟩, fun hnot ↦ ?_⟩
      rw [Detection.keeps, ← hkeeps, halarm] at hnot
      exact absurd hnot.symm Bool.false_ne_true
    · rw [if_neg halarm] at h
      obtain ⟨⟨t₂, cs₂⟩, hothers, h⟩ := of_bind_ok h
      obtain rfl := Except.ok.inj h
      have hrest := detectOthers_ok (Bool.eq_false_iff.mpr halarm) hothers
      have hsame : (cs₂.any fun c ↦ decide (c.zone.type = .preclusive) && c.zone.alarmed) = false := by
        rw [any_of_forall₂ (fun c c' hc ↦ ?_) hrest, ← hkeeps, Bool.eq_false_iff.mpr halarm]
        rw [hc.setup]
        by_cases htype : c.zone.type = .preclusive
        · rw [hc.preclusive htype]
        · rw [decide_eq_false htype, Bool.false_and, Bool.false_and]
      refine ⟨?_, fun hkept ↦ ?_, fun _ c hc ↦ ?_⟩
      · refine forall₂_comp (fun z c c' hc hc' ↦ ⟨hc'.setup.trans hc.setup, fun htype ↦ ?_⟩) hframed
          hrest
        rw [hc'.preclusive (by rw [hc.setup, htype])]
        exact hc.preclusive htype
      · rw [Detection.keeps, hsame] at hkept
        exact absurd hkept Bool.false_ne_true
      · obtain ⟨c₁, hc₁, hrel⟩ := exists_left_of_forall₂ hrest hc
        rw [hrel.setup]
        refine ⟨hrel.active, fun htype ↦ ?_, fun htype ↦ ?_⟩
        · exact hrel.inclusive htype (hblank c₁ hc₁ (by rw [htype]; decide))
        · exact hrel.exclusive htype (hblank c₁ hc₁ (by rw [htype]; decide))

variable {frames : List (GrayImage × Finset String)} {ds : List Detection} {i n : ℕ} {zone : Zone}

theorem detections_hold (h : detections D config beyond zones frames = .ok ds)
    (hzone : zones[i]? = some zone) (htype : zone.type = .preclusive) (hd : ds[n]? = some d) :
    ∃ c, d.zones[i]? = some c ∧ c.zone.hold =
      ((ds.take (n + 1)).map (·.succeeded i)).foldl (Hold.step zone.extendAlarmFrames) zone.hold := by
  induction frames generalizing zones zone ds n with
  | nil =>
    obtain rfl := Except.ok.inj h
    cases hd
  | cons frame frames ih =>
    obtain ⟨d₁, hfirst, h⟩ := of_bind_ok h
    obtain ⟨ds₁, hrest, h⟩ := of_bind_ok h
    obtain rfl := Except.ok.inj h
    obtain ⟨c, hc, hframed⟩ := getElem?_of_forall₂ (detectMotion_ok hfirst).1 hzone
    obtain ⟨b, hresult, hhold⟩ := hframed.preclusive htype
    have hb : d₁.succeeded i = b := by
      rw [Detection.succeeded, hc, Option.map_some, hresult]
      cases b <;> rfl
    rw [List.take_succ_cons, List.map_cons, List.foldl_cons, hb, ← hhold]
    cases n with
    | zero =>
      obtain rfl := Option.some.inj hd
      exact ⟨c, hc, rfl⟩
    | succ n =>
      have hnext : (d₁.zones.map Checked.zone)[i]? = some c.zone := by
        rw [List.getElem?_map, hc]
        rfl
      have hframes : c.zone.extendAlarmFrames = zone.extendAlarmFrames := by rw [hframed.setup]
      rw [← hframes]
      exact ih hrest hnext (by rw [hframed.setup, htype]) hd

theorem detections_looked (h : detections D config beyond zones frames = .ok ds) :
    ∀ d ∈ ds, d.Looked := by
  induction frames generalizing zones ds with
  | nil =>
    obtain rfl := Except.ok.inj h
    exact fun _ hd ↦ absurd hd List.not_mem_nil
  | cons frame frames ih =>
    obtain ⟨d₁, hfirst, h⟩ := of_bind_ok h
    obtain ⟨ds₁, hrest, h⟩ := of_bind_ok h
    obtain rfl := Except.ok.inj h
    exact List.forall_mem_cons.mpr ⟨(detectMotion_ok hfirst).2, ih hrest⟩

end

/-- A zone that has not been checked yet. -/
def ZoneSetup.zone (s : ZoneSetup) : Zone := { toZoneSetup := s }

/-- A preclusive zone stays alarmed for the frames of its extension after its checks have last
succeeded. While one does, nothing else is looked at and there is no score; in the other frames the
active zones are, and then the inclusive or the exclusive. -/
theorem preclusive_suppresses {D : Doubles} {config : MotionConfig} {beyond : Beyond}
    {setups : List ZoneSetup} {frames : List (GrayImage × Finset String)} {ds : List Detection}
    (h : detections D config beyond (setups.map ZoneSetup.zone) frames = .ok ds) {n : ℕ}
    {d : Detection} (hd : ds[n]? = some d) :
    (∀ i s, setups[i]? = some s → s.type = .preclusive →
      (d.alarmed i = true ↔ ∃ k d', k ≤ n ∧ n ≤ k + s.extendAlarmFrames ∧ ds[k]? = some d' ∧
        d'.succeeded i = true)) ∧
    d.Looked := by
  refine ⟨fun i s hs htype ↦ ?_, detections_looked h d (List.mem_of_getElem? hd)⟩
  have hzone : (setups.map ZoneSetup.zone)[i]? = some s.zone := by
    rw [List.getElem?_map, hs]
    rfl
  obtain ⟨c, hc, hhold⟩ := detections_hold h hzone htype hd
  obtain ⟨hlt, -⟩ := List.getElem?_eq_some_iff.mp hd
  have hlength : ((ds.take (n + 1)).map (·.succeeded i)).length = n + 1 := by
    rw [List.length_map, List.length_take, min_eq_left hlt]
  have halarmed : d.alarmed i = c.zone.hold.held := by
    rw [Detection.alarmed, hc]
    rfl
  have hfresh : s.zone.hold = {} := rfl
  rw [halarmed, hhold, hfresh, Hold.held_foldl, hlength]
  refine exists_congr fun k ↦ ?_
  rw [List.getElem?_map, List.getElem?_take]
  constructor
  · rintro ⟨hk, hwindow⟩
    obtain ⟨d', hd', hsucceeded⟩ := Option.map_eq_some_iff.mp hk
    split at hd'
    · next hle =>
      exact ⟨d', Nat.lt_succ_iff.mp hle, Nat.succ_le_succ_iff.mp hwindow, hd', hsucceeded⟩
    · cases hd'
  · rintro ⟨d', hle, hwindow, hd', hsucceeded⟩
    rw [if_pos (Nat.lt_succ_of_le hle), hd', Option.map_some, hsucceeded]
    exact ⟨rfl, Nat.succ_le_succ hwindow⟩

/-- A zone of the two pixels of an image, whose outline is all there is of it. -/
def bar (type : ZoneType) : ZoneSetup where
  id := 1
  label := "Bar"
  type
  polygon := { vertices := [⟨0, 0⟩, ⟨1, 0⟩, ⟨0, 0⟩], extent := ⟨⟨0, 0⟩, ⟨1, 0⟩⟩ }
  checkMethod := .alarmedPixels
  maxAlarmPixels := 10
  extendAlarmFrames := 1
  pgImage := ⟨2, 1, 32, fun i ↦ if 0 ≤ i ∧ i ≤ 1 then 255 else 0⟩
  ranges := fun _ ↦ ⟨0, 1⟩

def even (value : UInt8) : GrayImage := ⟨2, 1, 32, fun _ ↦ value⟩

def plainConfig : MotionConfig := ⟨⟨0, false, false⟩, false, false⟩

def nowhere : Beyond := ⟨fun _ _ ↦ none, fun _ _ ↦ none⟩

/-- The frame after a change: nothing has changed in it, and the zone is still alarmed. -/
theorem preclusive_suppresses_after :
    ∃ ds d, detections exactDoubles plainConfig nowhere ([bar .preclusive].map ZoneSetup.zone)
      [(even 200, ∅), (even 0, ∅)] = .ok ds ∧ ds[1]? = some d ∧ d.alarmed 0 = true ∧ d.score = 0 := by
  have hrun : ∃ d₀ d₁, detections exactDoubles plainConfig nowhere
      ([bar .preclusive].map ZoneSetup.zone) [(even 200, ∅), (even 0, ∅)] = .ok [d₀, d₁] ∧
      d₀.succeeded 0 = true ∧ d₁.keeps = true := ⟨_, _, rfl, rfl, rfl⟩
  obtain ⟨d₀, d₁, h, hfirst, hkeeps⟩ := hrun
  obtain ⟨hwindow, hlooked⟩ := preclusive_suppresses h (n := 1) rfl
  refine ⟨_, d₁, h, rfl, ?_, (hlooked.suppressed hkeeps).1⟩
  exact (hwindow 0 (bar .preclusive) rfl rfl).mpr
    ⟨0, d₀, Nat.zero_le 1, Nat.le_refl 1, rfl, hfirst⟩

/-- A frame without a change: nothing is kept, and the inclusive zone is not looked at. -/
theorem preclusive_suppresses_not_all :
    ¬ ∀ ds, detections exactDoubles plainConfig nowhere
        ([bar .active, bar .inclusive].map ZoneSetup.zone) [(even 0, ∅)] = .ok ds →
      ∀ d ∈ ds, d.keeps = false → ∀ c ∈ d.zones,
        c.zone.type = .active ∨ c.zone.type = .inclusive ∨ c.zone.type = .exclusive →
        c.result.isSome = true := by
  have hrun : ∃ d c₁ c₂, detections exactDoubles plainConfig nowhere
      ([bar .active, bar .inclusive].map ZoneSetup.zone) [(even 0, ∅)] = .ok [d] ∧
      d.keeps = false ∧ d.zones = [c₁, c₂] ∧ c₂.zone.type = .inclusive ∧ c₂.result = none :=
    ⟨_, _, _, rfl, rfl, rfl, rfl, rfl⟩
  obtain ⟨d, c₁, c₂, h, hkeeps, hzones, htype, hnone⟩ := hrun
  intro hall
  have hresult := hall _ h d (List.mem_singleton_self d) hkeeps c₂ (by simp [hzones])
    (Or.inr (Or.inl htype))
  rw [hnone] at hresult
  exact Bool.false_ne_true hresult

end ZoneMinder.Zone
