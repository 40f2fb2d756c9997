import ZoneMinder.EventStream.Playback
import ZoneMinder.Lib.Run
import ZoneMinder.StreamBase.ZoomCrop

namespace ZoneMinder.StreamBase

open Lib ZoneMinder.Poly EventStream

def controlsOf (s : EventStream) : Controls := ⟨s.zoom, s.scale, s.x, s.y⟩

/-- What a command makes of the controls. -/
def Controls.obey (c : Controls) (msg : CmdMsg) : Controls :=
  match msg.command with
  | .zoomIn => { c with x := msg.word 1, y := msg.word 3, zoom := c.zoom + 10 }
  | .zoomOut => { c with zoom := if c.zoom - 10 < scaleBase then scaleBase else c.zoom - 10 }
  | .zoomStop => { c with zoom := scaleBase }
  | .pan => { c with x := msg.word 1, y := msg.word 3 }
  | .scale => { c with scale := msg.word 1 }
  | _ => c

/-- A stream and the view that its frames keep. -/
structure Viewer where
  stream : EventStream
  view : View := {}

inductive Act
  | command (msg : CmdMsg) (now : ℤ)
  | frame (width height preScaledBy : ℤ)

variable {s : EventStream} {v w : Viewer} {msg : CmdMsg} {now : ℤ} {act : Act} {acts : List Act}
  {width height : ℤ}

namespace Viewer

def step (v : Viewer) : Act → Viewer
  | .command msg now => { v with stream := v.stream.processCommand msg now }
  | .frame width height preScaledBy =>
    { v with view :=
        (prepareImage v.view (controlsOf v.stream) width height preScaledBy).1 }

/-- The click is in the image of every frame. -/
def ClickInside (v : Viewer) : Act → Prop
  | .command _ _ => True
  | .frame width height _ => Clicked (controlsOf v.stream) width height

/-- Every region that is cut has its edges in order. -/
def CutsUpright (v : Viewer) : Act → Prop
  | .command _ _ => True
  | .frame width height preScaledBy =>
    preScaledBy = 0 → (controlsOf v.stream).zoom ≠ scaleBase →
      Upright (controlsOf v.stream) width height (startCrop width height v.view)

/-- What is passed to Crop is a region of the frame. -/
def CropsWithin (v : Viewer) : Act → Prop
  | .command _ _ => True
  | .frame width height preScaledBy =>
    ∀ limits, .crop limits ∈
        (prepareImage v.view (controlsOf v.stream) width height preScaledBy).2 →
      Within limits width height

end Viewer

theorem obey_controls (s : EventStream) (msg : CmdMsg) (now : ℤ) :
    controlsOf (s.obey msg now) = (controlsOf s).obey msg := by
  have hmotion : IgnoresMotion controlsOf := fun _ _ _ _ _ _ _ _ ↦ rfl
  have hhints : IgnoresHints controlsOf := fun _ _ _ _ _ _ _ _ ↦ rfl
  rw [hmotion.obey]
  unfold steer Controls.obey
  cases msg.command
  case setEvent => exact hhints.setEvent s _ now
  all_goals rfl

theorem processCommand_controls (s : EventStream) (msg : CmdMsg) (now : ℤ) :
    controlsOf (s.processCommand msg now) = (controlsOf s).obey msg := by
  rw [processCommand]
  split
  · exact obey_controls _ msg now
  · exact obey_controls _ msg now

/-- No command zooms out of the image. -/
theorem Controls.le_obey_zoom {c : Controls} (h : 100 ≤ c.zoom) (msg : CmdMsg) :
    100 ≤ (c.obey msg).zoom := by
  unfold Controls.obey
  cases msg.command
  case zoomIn =>
    change 100 ≤ c.zoom + 10
    omega
  case zoomOut =>
    change 100 ≤ if c.zoom - 10 < scaleBase then scaleBase else c.zoom - 10
    by_cases hlow : c.zoom - 10 < scaleBase
    · rw [if_pos hlow, scaleBase]
    · rw [if_neg hlow]
      exact not_lt.mp hlow
  case zoomStop => exact le_rfl
  all_goals exact h

/-- What a frame starts from: no crop yet, or a region of the frames it was cut from. -/
def Kept (view : View) : Prop :=
  view.lastCrop.hi.x = 0 ∧ view.lastCrop.hi.y = 0 ∨
    0 < view.lastCropWidth ∧ 0 < view.lastCropHeight ∧
      Within view.lastCrop view.lastCropWidth view.lastCropHeight

/-- Along one axis, a region of one image as one of an image of another size. -/
theorem rescale_bounds {lo hi old size : ℤ} (hold : 0 < old) (hsize : 0 < size) (hlo : 0 ≤ lo)
    (hle : lo ≤ hi) (hhi : hi < old) :
    0 ≤ (lo * size).tdiv old ∧ (lo * size).tdiv old ≤ (hi * size).tdiv old ∧
      (hi * size).tdiv old < size := by
  have hlo' : 0 ≤ lo * size := mul_nonneg hlo hsize.le
  have hle' : lo * size ≤ hi * size := mul_le_mul_of_nonneg_right hle hsize.le
  rw [Int.tdiv_eq_ediv_of_nonneg hlo', Int.tdiv_eq_ediv_of_nonneg (hlo'.trans hle')]
  refine ⟨Int.ediv_nonneg hlo' hold.le, Int.ediv_le_ediv hold hle', ?_⟩
  apply Int.ediv_lt_of_lt_mul hold
  rw [mul_comm size old]
  exact mul_lt_mul_of_pos_right hhi hsize

theorem startCrop_within {view : View} (h : Kept view) (hw : 0 < width) (hh : 0 < height) :
    startCrop width height view = ⟨⟨0, 0⟩, ⟨width, height⟩⟩ ∨
      Within (startCrop width height view) width height := by
  unfold startCrop
  split_ifs with hnone hsize
  · exact .inl rfl
  · obtain ⟨hw', hh', ⟨hlox, hx, hhix⟩, hloy, hy, hhiy⟩ := h.resolve_left hnone
    exact .inr ⟨rescale_bounds hw' hw hlox hx hhix, rescale_bounds hh' hh hloy hy hhiy⟩
  · obtain ⟨hw', -, hin⟩ := h.resolve_left hnone
    obtain ⟨rfl, rfl⟩ : view.lastCropWidth = width ∧ view.lastCropHeight = height := by
      by_contra hne
      exact hsize ⟨hw'.ne', by tauto⟩
    exact .inr hin

/-- What a run keeps. -/
structure Viewer.Sound (v : Viewer) : Prop where
  zoom : 100 ≤ (controlsOf v.stream).zoom
  kept : Kept v.view

/-- What a frame of a sound viewer passes to Crop is in the image but for the order of its
edges. -/
theorem Viewer.Sound.within_iff (h : v.Sound) (hclick : v.ClickInside act) :
    v.CropsWithin act ↔ v.CutsUpright act := by
  cases act with
  | command msg now => exact Iff.rfl
  | frame width height preScaledBy =>
    simp only [Viewer.CropsWithin, Viewer.CutsUpright]
    by_cases hscaled : preScaledBy = 0
    · subst hscaled
      by_cases hzoom : (controlsOf v.stream).zoom = scaleBase
      · obtain ⟨ops, hops, hprep⟩ := prepareImage_of_not_zoom v.view width height hzoom
        rw [hprep]
        exact iff_of_true (fun limits hin ↦ absurd hin (hops limits))
          (fun _ hne ↦ absurd hzoom hne)
      · have hstart := startCrop_within h.kept hclick.width_pos hclick.height_pos
        rw [prepareImage_of_zoom hzoom, ← nextCrop_within_iff hclick h.zoom hstart]
        simp [hzoom]
    · rw [prepareImage_of_preScaled hscaled]
      simp [hscaled]

theorem Viewer.Sound.step (h : v.Sound) (hclick : v.ClickInside act) (hup : v.CutsUpright act) :
    (v.step act).Sound := by
  cases act with
  | command msg now =>
    refine ⟨?_, h.kept⟩
    change 100 ≤ (controlsOf (v.stream.processCommand msg now)).zoom
    rw [processCommand_controls]
    exact Controls.le_obey_zoom h.zoom msg
  | frame width height preScaledBy =>
    have hin := (h.within_iff hclick).mpr hup
    simp only [Viewer.CropsWithin] at hin
    simp only [Viewer.step]
    by_cases hscaled : preScaledBy = 0
    · subst hscaled
      by_cases hzoom : (controlsOf v.stream).zoom = scaleBase
      · obtain ⟨ops, -, hprep⟩ := prepareImage_of_not_zoom v.view width height hzoom
        rw [hprep]
        exact ⟨h.zoom, h.kept⟩
      · rw [prepareImage_of_zoom hzoom] at hin ⊢
        exact ⟨h.zoom, .inr ⟨hclick.width_pos, hclick.height_pos, hin _ (by simp)⟩⟩
    · rw [prepareImage_of_preScaled hscaled]
      exact ⟨h.zoom, h.kept⟩

theorem Viewer.sound_start (eventData : EventData) : Viewer.Sound ⟨{ eventData }, {}⟩ where
  zoom := le_rfl
  kept := .inl ⟨rfl, rfl⟩

/-- Where every frame before cut its region with the edges in order, what the next one passes to
Crop is a region of its image if and only if it does too. -/
theorem cropsWithin_iff_upright (eventData : EventData) (acts : List Act) (v : Viewer) (act : Act)
    (hrun : Run (fun v act ↦ some (Viewer.step v act))
      (fun v act ↦ v.ClickInside act ∧ v.CutsUpright act) ⟨{ eventData }, {}⟩ acts v)
    (hclick : v.ClickInside act) : v.CropsWithin act ↔ v.CutsUpright act := by
  have hsound : v.Sound := by
    refine hrun.invariant ?_ (Viewer.sound_start eventData)
    intro v act w hv hpromise hstep
    obtain rfl : v.step act = w := by simpa using hstep
    exact hv.step hpromise.1 hpromise.2
  exact hsound.within_iff hclick

/-- A message with a command and a click. -/
def clickMsg (command xHi xLo yHi yLo : UInt8) : CmdMsg :=
  ⟨[command, xHi, xLo, yHi, yLo, 0, 0, 0, 0, 0, 0, 0, 0, 0, 0, 0], rfl⟩

def emptyEvent : EventData := ⟨1, 1, 0, 0, []⟩

theorem cropsWithin_centre :
    Viewer.CropsWithin
      (Viewer.step ⟨{ eventData := emptyEvent }, {}⟩ (.command (clickMsg 8 1 64 0 240) 0))
      (.frame 640 480 0) := by
  refine (cropsWithin_iff_upright emptyEvent [.command (clickMsg 8 1 64 0 240) 0] _
    (.frame 640 480 0) (.one ⟨trivial, trivial⟩ rfl) ?_).mpr ?_
  · exact ⟨by decide, by decide, by decide, by decide, by decide, by decide, by decide, by decide⟩
  · exact fun _ _ ↦ ⟨.inl (by decide), .inl (by decide)⟩

/-- Zooming in on the last pixel, a frame, and from the start again on the first one. -/
def cornerToCorner : List Act :=
  List.replicate 24 (.command (clickMsg 8 2 127 1 223) 0) ++
    [.frame 640 480 0, .command (clickMsg 21 0 0 0 0) 0, .command (clickMsg 8 0 0 0 0) 0]

instance (c : Controls) (width height : ℤ) : Decidable (Clicked c width height) :=
  decidable_of_iff
    ((0 < width ∧ width < 2 ^ 31 ∧ 0 < height ∧ height < 2 ^ 31) ∧
      (0 ≤ c.x ∧ c.x < width) ∧ 0 ≤ c.y ∧ c.y < height)
    ⟨fun ⟨⟨h₁, h₂, h₃, h₄⟩, ⟨h₅, h₆⟩, h₇, h₈⟩ ↦ ⟨h₁, h₂, h₃, h₄, h₅, h₆, h₇, h₈⟩,
      fun ⟨h₁, h₂, h₃, h₄, h₅, h₆, h₇, h₈⟩ ↦ ⟨⟨h₁, h₂, h₃, h₄⟩, ⟨h₅, h₆⟩, h₇, h₈⟩⟩

instance (v : Viewer) (act : Act) : Decidable (v.ClickInside act) :=
  match act with
  | .command _ _ => inferInstanceAs (Decidable True)
  | .frame _ _ _ => inferInstanceAs (Decidable (Clicked _ _ _))

theorem not_cropsWithin :
    ¬∀ (eventData : EventData) (acts : List Act) (v : Viewer) (act : Act),
      Run (fun v act ↦ some (Viewer.step v act)) Viewer.ClickInside ⟨{ eventData }, {}⟩ acts v →
        v.ClickInside act → v.CropsWithin act := by
  intro h
  obtain ⟨v, hrun, hv⟩ := Run.exists_of_any (fun v act ↦ some (Viewer.step v act))
    Viewer.ClickInside ⟨{ eventData := emptyEvent }, {}⟩ cornerToCorner
    (fun v ↦ decide (v.ClickInside (.frame 640 480 0)) &&
      decide (.crop ⟨⟨547, 482⟩, ⟨541, 479⟩⟩ ∈
        (prepareImage v.view (controlsOf v.stream) 640 480 0).2)) (by decide +kernel)
  rw [Bool.and_eq_true, decide_eq_true_eq, decide_eq_true_eq] at hv
  have hin := h emptyEvent cornerToCorner v (.frame 640 480 0) hrun hv.1 _ hv.2
  exact absurd hin (by decide)

end ZoneMinder.StreamBase
