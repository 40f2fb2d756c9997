import ZoneMinder.Zone.CheckAlarms

namespace ZoneMinder.Zone

open Lib ZoneMinder.Poly

/-- The size of a monitor that has an image; its columns are of 16 bits. -/
structure MonitorSize where
  width : ℕ
  height : ℕ
  width_mem : 0 < width ∧ width < 2 ^ 16
  height_mem : 0 < height ∧ height < 2 ^ 16

section

variable (polygon : Polygon) (width height : ℕ)

def clampVertex (v : Vector2) : Vector2 :=
  ⟨clamp v.x 0 (width - 1), clamp v.y 0 (height - 1)⟩

/-- Whether a vertex was moved, and the polygon. -/
def clampPolygon : Bool × Polygon :=
  let vertices := polygon.vertices.map (clampVertex width height)
  if vertices ≠ polygon.vertices then (true, .ofVertices vertices) else (false, polygon)

end

/-- The columns of a row of Zones, none of them negative; NULL is zero. -/
structure Row (D : Doubles) where
  id : ℕ
  name : String
  type : ZoneType
  coords : CString
  checkMethod : CheckMethod
  minPixelThreshold : ℕ
  maxPixelThreshold : ℕ
  minAlarmPixels : D.Double
  maxAlarmPixels : D.Double
  filterX : ℕ
  filterY : ℕ
  minFilterPixels : D.Double
  maxFilterPixels : D.Double
  minBlobPixels : D.Double
  maxBlobPixels : D.Double
  minBlobs : ℕ
  maxBlobs : ℕ
  overloadFrames : ℕ
  extendAlarmFrames : ℕ

section

variable (D : Doubles) (percent : CString → ℕ → ℤ) (size : MonitorSize) (row : Row D)

/-- With a decimal point the coordinates are percentages, without one pixels. none is a polygon
that the parser refuses. -/
def loadPolygon (coords : CString) : Except Fault (Option Polygon) :=
  if (strchr coords '.').isSome then
    match parsePercentagePolygon percent coords size.width size.height {} with
    | none => .error .overrun
    | some (true, polygon) => .ok (some polygon)
    | some (false, _) => .ok none
  else
    match parsePolygonString coords {} with
    | none => .error .overrun
    | some (true, polygon) => .ok (some (clampPolygon polygon size.width size.height).2)
    | some (false, _) => .ok none

/-- A threshold in pixels, of which the column holds the percentage of the area or the number. -/
def thresholdPixels (coords : CString) (area : ℤ) (pct : D.Double) : ℕ :=
  if (strchr coords '.').isSome ∧ area > 0 then
    if pct > D.ofInt 0 then
      (D.toInt (D.add (D.div (D.mul pct (D.ofInt area)) (D.ofInt 100))
        (D.div (D.ofInt 1) (D.ofInt 2)))).toNat
    else 0
  else (D.toInt pct).toNat

def loadInputs (polygon : Polygon) : ZoneInputs :=
  let pixels := thresholdPixels D row.coords polygon.area
  match row.type with
  | .inactive | .privacy => { id := row.id, label := row.name, type := row.type, polygon }
  | _ =>
    { id := row.id
      label := row.name
      type := row.type
      polygon
      checkMethod := row.checkMethod
      minPixelThreshold := row.minPixelThreshold
      maxPixelThreshold := row.maxPixelThreshold
      minAlarmPixels := pixels row.minAlarmPixels
      maxAlarmPixels := pixels row.maxAlarmPixels
      filterBox := ⟨row.filterX, row.filterY⟩
      minFilterPixels := pixels row.minFilterPixels
      maxFilterPixels := pixels row.maxFilterPixels
      minBlobPixels := pixels row.minBlobPixels
      maxBlobPixels := pixels row.maxBlobPixels
      minBlobs := row.minBlobs
      maxBlobs := row.maxBlobs
      overloadFrames := row.overloadFrames
      extendAlarmFrames := row.extendAlarmFrames }

/-- The zone that Load makes of a row, unless it ignores it. -/
def load : Except Fault (Option Zone) := do
  let polygon ← loadPolygon percent size row.coords
  .ok (polygon.map fun polygon ↦ setup D size.width size.height (loadInputs D row polygon))

end

/-- A polygon whose vertices are pixels of an image. -/
structure Placed (width height : ℕ) (polygon : Polygon) : Prop where
  inside : ∀ v ∈ polygon.vertices,
    (0 ≤ v.x ∧ v.x ≤ width - 1) ∧ 0 ≤ v.y ∧ v.y ≤ height - 1
  extent : ∀ v ∈ polygon.vertices, polygon.extent.lo.y ≤ v.y ∧ v.y ≤ polygon.extent.hi.y
  inImage : 0 ≤ polygon.extent.lo.y

section

variable {D : Doubles} {percent : CString → ℕ → ℤ} {size : MonitorSize} {row : Row D}
  {width height : ℕ} {polygon : Polygon} {vertices : List Vector2} {zone : Zone}

theorem clamp_mem {v hi : ℤ} (h : 0 ≤ hi) : 0 ≤ clamp v 0 hi ∧ clamp v 0 hi ≤ hi := by
  rw [clamp]
  split
  · omega
  · split <;> omega

theorem placed_ofVertices (h : ∀ v ∈ vertices,
    (0 ≤ v.x ∧ v.x ≤ width - 1) ∧ 0 ≤ v.y ∧ v.y ≤ height - 1) :
    Placed width height (.ofVertices vertices) where
  inside := by
    rw [Polygon.vertices_ofVertices]
    exact h
  extent := by
    rw [Polygon.vertices_ofVertices]
    exact fun v hv ↦ Polygon.extent_ofVertices hv
  inImage := Polygon.extent_nonneg fun v hv ↦ (h v hv).2.1

theorem placed_empty : Placed width height {} where
  inside := fun _ hv ↦ absurd hv List.not_mem_nil
  extent := fun _ hv ↦ absurd hv List.not_mem_nil
  inImage := Int.le_refl 0

theorem MonitorSize.clampVertex_mem (size : MonitorSize) (v : Vector2) :
    let v' := clampVertex size.width size.height v
    (0 ≤ v'.x ∧ v'.x ≤ size.width - 1) ∧ 0 ≤ v'.y ∧ v'.y ≤ size.height - 1 := by
  have hwidth := size.width_mem
  have hheight := size.height_mem
  exact ⟨clamp_mem (by omega), clamp_mem (by omega)⟩

theorem placed_clampPolygon (hpolygon : polygon = {} ∨ polygon = .ofVertices polygon.vertices) :
    Placed size.width size.height (clampPolygon polygon size.width size.height).2 := by
  rw [clampPolygon]
  split
  · refine placed_ofVertices fun v hv ↦ ?_
    obtain ⟨w, -, rfl⟩ := List.mem_map.mp hv
    exact size.clampVertex_mem w
  · next hsame =>
    rcases hpolygon with rfl | hpolygon
    · exact placed_empty
    · rw [hpolygon]
      refine placed_ofVertices fun v hv ↦ ?_
      rw [← not_not.mp hsame] at hv
      obtain ⟨w, -, rfl⟩ := List.mem_map.mp hv
      exact size.clampVertex_mem w

/-- Every vertex is that of a place in the string. -/
theorem coordinates_mem {vertex : CString → CString → Vector2} {str : CString}
    (h : coordinates vertex str = some vertices) : ∀ v ∈ vertices, ∃ x y, v = vertex x y := by
  induction hlen : str.length using Nat.strong_induction_on generalizing str vertices with
  | _ n ih =>
    by_cases hnil : str = []
    · rw [hnil, coordinates] at h
      obtain rfl := Option.some.inj h
      exact fun _ hv ↦ absurd hv List.not_mem_nil
    rw [coordinates_eq hnil] at h
    obtain ⟨-, hr⟩ | ⟨_, -, -, hr⟩ | ⟨_, c, y, -, -, -, hr⟩ | ⟨_, c, y, next, -, -, -, hr⟩ :=
      readVertex_cases vertex str
    · rw [hr] at h
      obtain rfl := Option.some.inj h
      exact fun _ hv ↦ absurd hv List.not_mem_nil
    · rw [hr] at h
      cases h
    · rw [hr] at h
      obtain rfl := Option.some.inj h
      intro v hv
      exact ⟨_, _, List.mem_singleton.mp hv⟩
    · have hshort := readVertex_length hr
      rw [hr] at h
      obtain ⟨rest, hrest, rfl⟩ := Option.map_eq_some_iff.mp h
      intro v hv
      rcases List.mem_append.mp hv with hv | hv
      · exact ⟨_, _, List.mem_singleton.mp hv⟩
      · exact ih _ (hlen ▸ hshort) hrest rfl v hv

theorem placed_loadPolygon {coords : CString}
    (h : loadPolygon percent size coords = .ok (some polygon)) :
    Placed size.width size.height polygon := by
  rw [loadPolygon] at h
  split at h
  · split at h
    · cases h
    · next hparse =>
      obtain rfl := Option.some.inj (Except.ok.inj h)
      obtain ⟨vertices, hcoords, heq⟩ := Option.map_eq_some_iff.mp hparse
      split at heq
      · obtain rfl := (Prod.mk.inj heq).2
        refine placed_ofVertices fun v hv ↦ ?_
        obtain ⟨x, y, rfl⟩ := coordinates_mem hcoords v hv
        exact size.clampVertex_mem ⟨percent x size.width, percent y size.height⟩
      · cases heq
    · cases h
  · split at h
    · cases h
    · next hparse =>
      obtain rfl := Option.some.inj (Except.ok.inj h)
      obtain ⟨vertices, -, heq⟩ := Option.map_eq_some_iff.mp hparse
      obtain rfl := (Prod.mk.inj heq).2
      apply placed_clampPolygon
      split
      · right
        rw [Polygon.vertices_ofVertices]
      · exact Or.inl rfl
    · cases h

theorem load_eq (h : load D percent size row = .ok (some zone)) :
    ∃ polygon, Placed size.width size.height polygon ∧
      zone = setup D size.width size.height (loadInputs D row polygon) ∧
      loadPolygon percent size row.coords = .ok (some polygon) := by
  rw [load] at h
  cases hload : loadPolygon percent size row.coords with
  | error fault =>
    rw [hload] at h
    cases h
  | ok found =>
    rw [hload, ok_bind] at h
    obtain ⟨polygon, rfl, hzone⟩ := Option.map_eq_some_iff.mp (Except.ok.inj h)
    exact ⟨polygon, placed_loadPolygon hload, hzone.symm, rfl⟩

theorem load_of_polygon (row : Row D)
    (h : loadPolygon percent size row.coords = .ok (some polygon)) :
    load D percent size row =
      .ok (some (setup D size.width size.height (loadInputs D row polygon))) := by
  rw [load, h]
  rfl

theorem thresholdPixels_zero (D : Doubles) (coords : CString) (area : ℤ) :
    thresholdPixels D coords area (D.ofInt 0) = 0 := by
  rw [thresholdPixels]
  split
  · exact if_neg (lt_irrefl _)
  · rw [D.toInt_ofInt 0 (by decide)]
    rfl

theorem polygon_loadInputs : (loadInputs D row polygon).polygon = polygon := by
  rw [loadInputs]
  split <;> rfl

end

end ZoneMinder.Zone
