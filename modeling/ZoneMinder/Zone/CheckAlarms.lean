import ZoneMinder.Zone.Blobs
import ZoneMinder.Zone.Opening
import ZoneMinder.Zone.Raster

set_option linter.dupNamespace false

namespace ZoneMinder.Zone

open ZoneMinder.Poly

inductive ZoneType
  | active
  | inclusive
  | exclusive
  | preclusive
  | inactive
  | privacy
  deriving DecidableEq

/-- Zones that are not looked at are set up without a method. -/
inductive CheckMethod
  | unset
  | alarmedPixels
  | filteredPixels
  | blobs
  deriving DecidableEq

def CheckMethod.value : CheckMethod → ℕ
  | unset => 0
  | alarmedPixels => 1
  | filteredPixels => 2
  | blobs => 3

structure ZoneStats where
  pixelDiff : ℕ := 0
  alarmPixels : ℕ := 0
  alarmFilterPixels : ℕ := 0
  alarmBlobPixels : ℤ := 0
  alarmBlobs : ℤ := 0
  minBlobSize : ℕ := 0
  maxBlobSize : ℕ := 0
  alarmBox : Box := ⟨⟨0, 0⟩, ⟨0, 0⟩⟩
  alarmCentre : Vector2 := ⟨0, 0⟩
  score : ℕ := 0

/-- Zero is no limit in each minimum and maximum. -/
structure ZoneInputs where
  id : ℕ
  label : String
  type : ZoneType
  polygon : Polygon
  checkMethod : CheckMethod := .unset
  minPixelThreshold : ℕ := 0
  maxPixelThreshold : ℕ := 0
  minAlarmPixels : ℕ := 0
  maxAlarmPixels : ℕ := 0
  filterBox : Vector2 := ⟨0, 0⟩
  minFilterPixels : ℕ := 0
  maxFilterPixels : ℕ := 0
  minBlobPixels : ℕ := 0
  maxBlobPixels : ℕ := 0
  minBlobs : ℕ := 0
  maxBlobs : ℕ := 0
  overloadFrames : ℕ := 0
  extendAlarmFrames : ℕ := 0

/-- What Setup derives of the inputs for good. -/
structure ZoneSetup extends ZoneInputs where
  pgImage : GrayImage
  ranges : ℤ → Range

structure Zone extends ZoneSetup where
  alarmed : Bool := false
  wasAlarmed : Bool := false
  stats : ZoneStats := {}
  overloadCount : ℕ := 0
  extendAlarmCount : ℕ := 0

def GrayImage.rangeStep (image : GrayImage) (y : ℤ) (range : Range) (x : ℤ) : Range :=
  if image.pixel x y ≠ 0 then
    { loX := if range.loX = -1 then x else range.loX
      hiX := if range.hiX < x then x else range.hiX }
  else range

/-- The first and the last pixel of a row that are painted. -/
def GrayImage.range (image : GrayImage) (y : ℤ) : Range :=
  (upto 0 (image.width - 1)).foldl (image.rangeStep y) {}

/-- The polygon painted on an image of the size of the monitor's. -/
def pgImage (D : Doubles) (width height : ℕ) (polygon : Polygon) : GrayImage :=
  outline D 0xff polygon
    ((fill D 1 0xff polygon (.clear width height)).get (fill_isSome ..))

def setup (D : Doubles) (width height : ℕ) (inputs : ZoneInputs) : Zone :=
  let pgImage := pgImage D width height inputs.polygon
  { toZoneInputs := inputs, pgImage, ranges := pgImage.range }

/-- Why CheckAlarms does not return. -/
inductive Fault
  | zeroDivision
  /-- It reads or writes outside of a buffer. -/
  | overrun
  /-- It exits the process itself. -/
  | exit
  deriving DecidableEq

/-- What of the configuration and the monitor CheckAlarms depends on. -/
structure CheckConfig where
  optSaveJPEGs : ℤ
  recordDiagImages : Bool
  weightedAlarmCentres : Bool

/-- What the filter and the blobs come to in a zone with a row that goes on beyond the delta: they
read on into its next row. none is a read outside of its buffer. -/
structure Beyond where
  filtered : ZoneSetup → Buffer → Option Filtered
  blobs : ZoneSetup → Buffer → Option BlobCheck

namespace Rows

variable (z : Rows) (width : ℕ)

/-- The rows cut to the width of an image. -/
def cut : Rows :=
  { z with ranges := fun y ↦ { z.ranges y with hiX := min (z.ranges y).hiX (width - 1) } }

/-- Whether a row starts so far beyond an image that the number of its pixels, unsigned, wraps. -/
def overruns : Bool :=
  (upto z.loY z.hiY).any fun y ↦
    decide (0 ≤ (z.ranges y).loX ∧ (z.ranges y).loX ≤ (z.ranges y).hiX ∧ width < (z.ranges y).loX)

def fits : Bool :=
  (upto z.loY z.hiY).all fun y ↦
    decide ((z.ranges y).loX < 0 ∨ (z.ranges y).loX > (z.ranges y).hiX ∨ (z.ranges y).hiX < width)

theorem mem_pixels_cut {z : Rows} {width : ℕ} {p : Pixel} :
    p ∈ (z.cut width).pixels ↔ p ∈ z.pixels ∧ p.1 < width := by
  rw [mem_pixels, mem_pixels]
  dsimp only [cut]
  omega

end Rows

namespace ZoneSetup

variable (zone : ZoneSetup) (delta : GrayImage) (z : Rows)

def calcMin : UInt8 := UInt8.ofNat zone.minPixelThreshold

def calcMax : UInt8 :=
  if zone.maxPixelThreshold ≠ 0 then UInt8.ofNat zone.maxPixelThreshold else 255

def pixelAlarmed (p : Pixel) : Bool :=
  zone.pgImage.pixel p.1 p.2 != 0 &&
    (decide (delta.pixel p.1 p.2 > zone.calcMin) && decide (delta.pixel p.1 p.2 ≤ zone.calcMax))

/-- The pixels that std_alarmedpixels counts. -/
def alarmedPixels : List Pixel := (z.cut delta.width).pixels.filter (zone.pixelAlarmed delta)

def mask : Mask z where
  white := (zone.alarmedPixels delta z).toFinset
  inside := fun _ hp ↦
    (Rows.mem_pixels_cut.mp (List.mem_of_mem_filter (List.mem_toFinset.mp hp))).1

def settings (config : CheckConfig) : Settings where
  minBlobPixels := zone.minBlobPixels
  maxBlobPixels := zone.maxBlobPixels
  optSaveJPEGs := config.optSaveJPEGs
  recordDiagImages := config.recordDiagImages
  weightedAlarmCentres := config.weightedAlarmCentres

end ZoneSetup

/-- A count against a minimum and a maximum. -/
inductive Limit
  | few
  | within
  | many

def limit (count : ℤ) (min max : ℕ) : Limit :=
  if count = 0 then .few
  else if min ≠ 0 ∧ count < min then .few
  else if max ≠ 0 ∧ count > max then .many
  else .within

def divide (a b : ℤ) : Except Fault ℤ := if b = 0 then .error .zeroDivision else .ok (a.tdiv b)

def pixelDiff (sum count : ℕ) : Except Fault ℤ :=
  if sum ≠ 0 ∧ count ≠ 0 then divide sum count else .ok 0

/-- The score of a count, of a hundred at the maximum or of the area. -/
def scoreOf (count : ℤ) (max : ℕ) (area : ℤ) : Except Fault ℕ := do
  let score ← divide (100 * count) (if max ≠ 0 then max else area)
  .ok (if score < 1 then 1 else score.toNat)

/-- The box of all blobs, and the centre of the last of the largest. -/
def BlobCheck.alarmArea (c : Settings) (extent : Box) (s : BlobCheck) : Box × Vector2 :=
  (List.range' 1 (kWhite - 1)).foldl (fun (box, centre) t ↦
    let bs := s.blobs t
    if bs.count = 0 then (box, centre)
    else
      (⟨⟨min box.lo.x bs.loX, min box.lo.y bs.loY⟩, ⟨max box.hi.x bs.hiX, max box.hi.y bs.hiY⟩⟩,
        if bs.count = s.maxBlobSize then ⟨(s.alarmMid c t).1, (s.alarmMid c t).2⟩ else centre))
    (⟨⟨extent.hi.x + 1, extent.hi.y + 1⟩, ⟨extent.lo.x - 1, extent.lo.y - 1⟩⟩, ⟨-1, -1⟩)

namespace Zone

variable (config : CheckConfig) (beyond : Beyond) (zone : Zone) (delta : GrayImage) (z : Rows)

def setAlarm : Zone := { zone with wasAlarmed := zone.alarmed, alarmed := true }

def clearAlarm : Zone := { zone with wasAlarmed := zone.alarmed, alarmed := false }

def resetStats : Zone := { zone with alarmed := false, wasAlarmed := false, stats := {} }

/-- The end of the stages: the score that the count has, when it is within its limits. -/
def stage (l : Limit) (count : ℤ) (max : ℕ) (next : Zone → Except Fault (Bool × Zone)) :
    Except Fault (Bool × Zone) :=
  match l with
  | .few => .ok (false, { zone with stats := { zone.stats with score := 0 } })
  | .many => .ok (false, { zone with
      overloadCount := zone.overloadFrames, stats := { zone.stats with score := 0 } })
  | .within => do
    let score ← scoreOf count max zone.polygon.area
    next { zone with stats := { zone.stats with score } }

/-- The score is adjusted to the type; a region that has one is outlined. -/
def outlineRegion (area : Box × Vector2) : Except Fault (Bool × Zone) :=
  let score :=
    match zone.type with
    | .inclusive => zone.stats.score / 2
    | .exclusive => zone.stats.score * 2
    | _ => zone.stats.score
  .ok (true, { zone with stats :=
    if score ≠ 0 then { zone.stats with score, alarmBox := area.1, alarmCentre := area.2 }
    else { zone.stats with score } })

def checkBlobs (buff : Buffer) : Except Fault (Bool × Zone) :=
  let c := zone.settings config
  match if z.fits delta.width then some (z.checkBlobs c buff)
    else beyond.blobs zone.toZoneSetup buff with
  | none => .error .overrun
  | some s =>
    if s.aborted then .error .exit
    else
      let zone := { zone with stats := { zone.stats with
        alarmBlobPixels := s.alarmBlobPixels
        alarmBlobs := s.alarmBlobs
        minBlobSize := s.minBlobSize
        maxBlobSize := s.maxBlobSize } }
      zone.stage (limit s.alarmBlobs zone.minBlobs zone.maxBlobs) s.alarmBlobPixels
        zone.maxBlobPixels fun zone ↦ zone.outlineRegion (s.alarmArea c zone.polygon.extent)

def checkFilter (buff : Buffer) : Except Fault (Bool × Zone) :=
  match if z.fits delta.width then
      some (z.filterPixels (zone.filterBox.x, zone.filterBox.y) zone.stats.alarmPixels buff)
    else beyond.filtered zone.toZoneSetup buff with
  | none => .error .overrun
  | some s =>
    let zone := { zone with stats := { zone.stats with alarmFilterPixels := s.alarmFilterPixels } }
    zone.stage (limit s.alarmFilterPixels zone.minFilterPixels zone.maxFilterPixels)
      s.alarmFilterPixels zone.maxFilterPixels fun zone ↦
        if zone.checkMethod.value ≥ CheckMethod.blobs.value then
          zone.checkBlobs config beyond delta z s.buff
        else zone.outlineRegion (⟨⟨0, 0⟩, ⟨0, 0⟩⟩, ⟨0, 0⟩)

def checkPixels : Except Fault (Bool × Zone) := do
  let alarmed := zone.alarmedPixels delta z
  let diff ← pixelDiff (alarmed.map fun p ↦ (delta.pixel p.1 p.2).toNat).sum alarmed.length
  let zone := { zone with stats := { zone.stats with
    alarmPixels := alarmed.length, pixelDiff := diff.toNat } }
  zone.stage (limit alarmed.length zone.minAlarmPixels zone.maxAlarmPixels) alarmed.length
    zone.maxAlarmPixels fun zone ↦
      if zone.checkMethod.value ≥ CheckMethod.filteredPixels.value then
        zone.checkFilter config beyond delta z (zone.mask delta z).buffer
      else zone.outlineRegion (⟨⟨0, 0⟩, ⟨0, 0⟩⟩, ⟨-1, -1⟩)

def checkAlarms : Except Fault (Bool × Zone) :=
  let zone := zone.resetStats
  if zone.overloadCount ≠ 0 then
    .ok (false, { zone with overloadCount := zone.overloadCount - 1 })
  else if delta.width = 0 ∨ delta.height = 0 then .ok (false, zone)
  else
    let loY := zone.polygon.extent.lo.y
    let hiY := min zone.polygon.extent.hi.y (delta.height - 1)
    if loY > hiY then .ok (false, zone)
    else if h : 0 ≤ loY then
      let z : Rows := ⟨zone.ranges, loY, hiY, h⟩
      if z.overruns delta.width then .error .overrun
      else zone.checkPixels config beyond delta z
    else .error .overrun

/-- Whether each of the maxima that the method of a zone uses is set. -/
def MaximaSet : Prop :=
  zone.maxAlarmPixels ≠ 0 ∧
    (zone.checkMethod.value ≥ CheckMethod.filteredPixels.value → zone.maxFilterPixels ≠ 0) ∧
    (zone.checkMethod.value ≥ CheckMethod.blobs.value → zone.maxBlobPixels ≠ 0)

/-- What the stages keep of a zone. -/
structure Kept (zone zone' : Zone) : Prop where
  setup : zone'.toZoneSetup = zone.toZoneSetup
  extendAlarmCount : zone'.extendAlarmCount = zone.extendAlarmCount
  alarmed : zone'.alarmed = false

/-- How CheckAlarms ends, of a preclusive zone in particular, as no other score stays as it is. -/
def Ends : Except Fault (Bool × Zone) → Prop
  | .error fault => zone.polygon.area ≠ 0 ∨ zone.MaximaSet → fault ≠ .zeroDivision
  | .ok (success, zone') => zone.Kept zone' ∧ (success = false → zone'.stats.score = 0) ∧
      (success = true → zone.type = .preclusive → 0 < zone'.stats.score)

end Zone

theorem ok_bind {α β : Type} (a : α) (f : α → Except Fault β) : (Except.ok a >>= f) = f a := rfl

theorem of_bind_ok {α β : Type} {x : Except Fault α} {f : α → Except Fault β} {b : β}
    (h : x >>= f = .ok b) : ∃ a, x = .ok a ∧ f a = .ok b := by
  cases x with
  | error fault => cases h
  | ok a => exact ⟨a, rfl, h⟩

theorem divide_eq {a b : ℤ} (h : b ≠ 0) : divide a b = .ok (a.tdiv b) := if_neg h

theorem pixelDiff_ok (sum count : ℕ) : ∃ diff, pixelDiff sum count = .ok diff := by
  rw [pixelDiff]
  split
  · next h => exact ⟨_, divide_eq (by exact_mod_cast h.2)⟩
  · exact ⟨0, rfl⟩

theorem scoreOf_ok (count : ℤ) {area : ℤ} {max : ℕ} (h : max ≠ 0 ∨ area ≠ 0) :
    ∃ score, scoreOf count max area = .ok score ∧ 0 < score := by
  have hdivisor : (if max ≠ 0 then (max : ℤ) else area) ≠ 0 := by
    by_cases hmax : max = 0
    · rw [if_neg (not_not.mpr hmax)]
      exact h.resolve_left (not_not.mpr hmax)
    · rw [if_pos hmax]
      exact_mod_cast hmax
  rw [scoreOf, divide_eq hdivisor]
  generalize (100 * count).tdiv _ = score
  refine ⟨_, rfl, ?_⟩
  split <;> omega

theorem scoreOf_zero (count : ℤ) : scoreOf count 0 0 = .error .zeroDivision := rfl

namespace Zone

variable {config : CheckConfig} {beyond : Beyond} {zone zone' : Zone} {delta : GrayImage}
  {z : Rows} {buff : Buffer} {count : ℤ} {l : Limit} {max : ℕ}
  {next : Zone → Except Fault (Bool × Zone)}

/-- What the statistics become is not among what the stages keep. -/
theorem Kept.withStats (h : zone.Kept zone') (stats : ZoneStats) :
    zone.Kept { zone' with stats } := ⟨h.setup, h.extendAlarmCount, h.alarmed⟩

namespace Ends

theorem stage (h : zone.Kept zone')
    (hmax : zone.polygon.area ≠ 0 ∨ zone.MaximaSet → max ≠ 0 ∨ zone.polygon.area ≠ 0)
    (hnext : ∀ zone'', zone.Kept zone'' → 0 < zone''.stats.score → zone.Ends (next zone'')) :
    zone.Ends (zone'.stage l count max next) := by
  cases l with
  | few => exact ⟨h.withStats _, fun _ ↦ rfl, fun hs ↦ absurd hs Bool.false_ne_true⟩
  | many =>
    refine ⟨⟨h.setup, h.extendAlarmCount, h.alarmed⟩, fun _ ↦ rfl, fun hs ↦ ?_⟩
    exact absurd hs Bool.false_ne_true
  | within =>
    rw [Zone.stage]
    by_cases hne : max ≠ 0 ∨ zone'.polygon.area ≠ 0
    · obtain ⟨score, hok, hpos⟩ := scoreOf_ok count hne
      rw [hok]
      exact hnext _ (h.withStats _) hpos
    · obtain ⟨rfl, harea⟩ : max = 0 ∧ zone'.polygon.area = 0 := by omega
      rw [harea, scoreOf_zero]
      rw [h.setup] at hne
      exact fun hset ↦ absurd (hmax hset) hne

theorem outlineRegion (h : zone.Kept zone') (hscore : 0 < zone'.stats.score) (area : Box × Vector2) :
    zone.Ends (zone'.outlineRegion area) := by
  refine ⟨h.withStats _, fun hs ↦ absurd hs.symm Bool.false_ne_true, fun _ htype ↦ ?_⟩
  have htype' : zone'.type = .preclusive := by rw [h.setup, htype]
  simp only [htype']
  split <;> exact hscore

theorem checkBlobs (h : zone.Kept zone')
    (hmethod : zone'.checkMethod.value ≥ CheckMethod.blobs.value) :
    zone.Ends (zone'.checkBlobs config beyond delta z buff) := by
  rw [Zone.checkBlobs]
  split
  · exact fun _ ↦ Fault.noConfusion
  dsimp only
  split
  · exact fun _ ↦ Fault.noConfusion
  · refine stage (h.withStats _) ?_ fun zone'' h' hscore ↦ outlineRegion h' hscore _
    rw [h.setup] at *
    intro hset
    exact hset.symm.imp_left fun hm ↦ hm.2.2 hmethod

theorem checkFilter (h : zone.Kept zone')
    (hmethod : zone'.checkMethod.value ≥ CheckMethod.filteredPixels.value) :
    zone.Ends (zone'.checkFilter config beyond delta z buff) := by
  rw [Zone.checkFilter]
  split
  · exact fun _ ↦ Fault.noConfusion
  · refine stage (h.withStats _) ?_ fun zone'' h' hscore ↦ ?_
    · rw [h.setup] at *
      intro hset
      exact hset.symm.imp_left fun hm ↦ hm.2.1 hmethod
    · split
      · next hblobs => exact checkBlobs h' hblobs
      · exact outlineRegion h' hscore _

theorem checkPixels (h : zone.Kept zone') :
    zone.Ends (zone'.checkPixels config beyond delta z) := by
  obtain ⟨diff, hdiff⟩ := pixelDiff_ok ((zone'.alarmedPixels delta z).map fun p ↦
    (delta.pixel p.1 p.2).toNat).sum (zone'.alarmedPixels delta z).length
  rw [Zone.checkPixels]
  dsimp only
  rw [hdiff, ok_bind]
  refine stage (h.withStats _) ?_ fun zone'' h' hscore ↦ ?_
  · rw [h.setup] at *
    intro hset
    exact hset.symm.imp_left fun hm ↦ hm.1
  · split
    · next hfilter => exact checkFilter h' hfilter
    · exact outlineRegion h' hscore _

end Ends

/-- The three ways through the checks before the stages. -/
theorem checkAlarms_cases (config : CheckConfig) (beyond : Beyond) (zone : Zone)
    (delta : GrayImage) :
    (∃ zone', zone.checkAlarms config beyond delta = .ok (false, zone') ∧ zone.Kept zone' ∧
      zone'.stats.score = 0) ∨
    zone.checkAlarms config beyond delta = .error .overrun ∨
    ∃ z : Rows, zone.checkAlarms config beyond delta =
      zone.resetStats.checkPixels config beyond delta z := by
  have hreset : zone.Kept zone.resetStats := ⟨rfl, rfl, rfl⟩
  rw [Zone.checkAlarms]
  dsimp only
  split
  · exact Or.inl ⟨_, rfl, ⟨rfl, rfl, rfl⟩, rfl⟩
  split
  · exact Or.inl ⟨_, rfl, hreset, rfl⟩
  split
  · exact Or.inl ⟨_, rfl, hreset, rfl⟩
  split
  · split
    · exact Or.inr (Or.inl rfl)
    · exact Or.inr (Or.inr ⟨_, rfl⟩)
  · exact Or.inr (Or.inl rfl)

theorem Ends.checkAlarms (config : CheckConfig) (beyond : Beyond) (delta : GrayImage)
    (zone : Zone) : zone.Ends (zone.checkAlarms config beyond delta) := by
  obtain ⟨zone', heq, hkept, hscore⟩ | heq | ⟨z, heq⟩ := checkAlarms_cases config beyond zone delta
  · rw [heq]
    exact ⟨hkept, fun _ ↦ hscore, fun hs ↦ absurd hs Bool.false_ne_true⟩
  · rw [heq]
    exact fun _ ↦ Fault.noConfusion
  · rw [heq]
    exact Ends.checkPixels ⟨rfl, rfl, rfl⟩

/-- Without a pixel on the image of its polygon a zone has nothing to divide. -/
theorem checkAlarms_of_blank (hblank : ∀ x y, zone.pgImage.pixel x y = 0) :
    zone.checkAlarms config beyond delta ≠ .error .zeroDivision := by
  obtain ⟨zone', heq, -⟩ | heq | ⟨z, heq⟩ := checkAlarms_cases config beyond zone delta
  · rw [heq]
    intro h
    cases h
  · rw [heq]
    exact fun h ↦ Fault.noConfusion (Except.error.inj h)
  · have hnone : zone.resetStats.alarmedPixels delta z = [] := by
      rw [ZoneSetup.alarmedPixels, List.filter_eq_nil_iff]
      intro p _
      have hpixel : zone.resetStats.pgImage.pixel p.1 p.2 = 0 := hblank _ _
      simp [ZoneSetup.pixelAlarmed, hpixel]
    rw [heq, checkPixels, hnone]
    intro h
    cases h

end Zone

end ZoneMinder.Zone
