import ZoneMinder.Zone.Load

namespace ZoneMinder.Zone

open Lib ZoneMinder.Poly

section

variable {D : Doubles} {width height : ℕ} {polygon : Polygon} {image : GrayImage} {y : ℤ}

/-- A range spans the painted pixels of its row, and ends at one of them. -/
theorem foldl_rangeStep (l : List ℤ) (hl : l.Pairwise (· < ·)) (hpos : ∀ x ∈ l, 0 ≤ x) :
    let range := l.foldl (image.rangeStep y) {}
    (range.loX = -1 ∨ range.loX ∈ l) ∧ (range.hiX = 0 ∨ range.hiX ∈ l) ∧
      ∀ x ∈ l, image.pixel x y ≠ 0 → 0 ≤ range.loX ∧ range.loX ≤ x ∧ x ≤ range.hiX := by
  induction l using List.reverseRecOn with
  | nil => exact ⟨Or.inl rfl, Or.inl rfl, fun _ h ↦ absurd h List.not_mem_nil⟩
  | append_singleton l x ih =>
    rw [List.pairwise_append] at hl
    obtain ⟨hlo, hhi, hspan⟩ := ih hl.1 fun x' h ↦ hpos x' (List.mem_append_left _ h)
    have hx : 0 ≤ x := hpos x (List.mem_append_right _ (List.mem_singleton_self x))
    have hbefore : ∀ x' ∈ l, 0 ≤ x' ∧ x' < x := fun x' h ↦
      ⟨hpos x' (List.mem_append_left _ h), hl.2.2 x' h x (List.mem_singleton_self x)⟩
    simp only [List.foldl_append, List.foldl_cons, List.foldl_nil, List.mem_append,
      List.mem_singleton]
    generalize l.foldl (image.rangeStep y) {} = range at *
    rw [GrayImage.rangeStep]
    split
    · next hpaint =>
      dsimp only
      have hlo' : range.loX = -1 ∨ 0 ≤ range.loX ∧ range.loX < x := hlo.imp_right (hbefore _)
      refine ⟨?_, ?_, ?_⟩
      · split
        · exact Or.inr (Or.inr rfl)
        · next hset => exact Or.inr (Or.inl (hlo.resolve_left hset))
      · split
        · exact Or.inr (Or.inr rfl)
        · exact hhi.imp_right Or.inl
      · rintro x' (hx' | rfl) hpaint'
        · have h := hspan x' hx' hpaint'
          split <;> split <;> omega
        · split <;> split <;> omega
    · next hblank =>
      refine ⟨hlo.imp_right Or.inl, hhi.imp_right Or.inl, ?_⟩
      rintro x' (hx' | rfl) hpaint'
      · exact hspan x' hx' hpaint'
      · exact absurd hpaint' hblank

theorem range_lt (image : GrayImage) (y : ℤ) (hwidth : 0 < image.width) :
    (image.range y).hiX < image.width := by
  rcases (foldl_rangeStep _ (pairwise_upto _ _) fun _ h ↦ (mem_upto.mp h).1).2.1 with h | h
  · exact h.trans_lt (by exact_mod_cast hwidth)
  · have hle := (mem_upto.mp h).2
    change (image.range y).hiX ≤ _ at hle
    omega

theorem range_spans {x : ℤ} (hx : 0 ≤ x ∧ x ≤ image.width - 1) (hpaint : image.pixel x y ≠ 0) :
    0 ≤ (image.range y).loX ∧ (image.range y).loX ≤ x ∧ x ≤ (image.range y).hiX :=
  (foldl_rangeStep _ (pairwise_upto _ _) fun _ h ↦ (mem_upto.mp h).1).2.2 x (mem_upto.mpr hx)
    hpaint

theorem clear_within_pgImage :
    (GrayImage.clear width height).Within (pgImage D width height polygon) := by
  have hcolour : (0xff : UInt8) ≠ 0 := by decide
  refine GrayImage.Within.trans ?_ (.of_foldl (.of_outlineEdge hcolour) _ _)
  exact .of_fill hcolour (Option.some_get _).symm

theorem pgImage_start (hplaced : Placed width height polygon)
    (hsize : width ≤ 2 ^ 31 ∧ height ≤ 2 ^ 31) {edge : Vector2 × Vector2}
    (hedge : edge ∈ edges polygon.vertices) (hne : edge.1 ≠ edge.2) :
    (pgImage D width height polygon).pixel edge.1.x edge.1.y ≠ 0 := by
  have hcolour : (0xff : UInt8) ≠ 0 := by decide
  obtain ⟨before, after, hsplit⟩ := List.append_of_mem hedge
  have hfill : (GrayImage.clear width height).Within ((fill D 1 0xff polygon
      (.clear width height)).get (fill_isSome ..)) := .of_fill hcolour (Option.some_get _).symm
  rw [GrayImage.pixel, GrayImage.index, (clear_within_pgImage (D := D)).linesize, pgImage, outline,
    hsplit, List.foldl_append, List.foldl_cons]
  have hbefore := hfill.trans (.of_foldl (.of_outlineEdge (D := D) hcolour) before _)
  have hin := mem_of_mem_edges hedge
  refine (GrayImage.Within.of_foldl (.of_outlineEdge hcolour) after _).painted _ ?_
  generalize before.foldl (outlineEdge D 0xff) _ = image at *
  have hstart := outlineEdge_start D image hcolour hne
  rw [GrayImage.index, hbefore.width, hbefore.height, hbefore.linesize] at hstart
  exact hstart hsize (hplaced.inside _ hin.1) (hplaced.inside _ hin.2)

/-- A polygon that is a point, or none, leaves the image blank. -/
theorem pgImage_point {v : Vector2} (h : ∀ w ∈ polygon.vertices, w = v) :
    pgImage D width height polygon = .clear width height := by
  have hself : ∀ edge ∈ edges polygon.vertices, edge = (v, v) := by
    intro edge hedge
    obtain ⟨h₁, h₂⟩ := mem_of_mem_edges hedge
    exact Prod.ext (h _ h₁) (h _ h₂)
  have hnone : (edges polygon.vertices).filterMap (FillEdge.ofEdge (D := D)) = [] := by
    rw [List.filterMap_eq_nil_iff]
    intro edge hedge
    rw [hself edge hedge, FillEdge.ofEdge]
    exact if_pos rfl
  have hfill : fill D 1 0xff polygon (.clear width height) = some (.clear width height) := by
    rw [fill, hnone, List.mergeSort_nil]
    split <;> rfl
  have houtline : ∀ l : List (Vector2 × Vector2), (∀ edge ∈ l, edge = (v, v)) → ∀ image,
      l.foldl (outlineEdge D 0xff) image = image := by
    intro l hl image
    induction l with
    | nil => rfl
    | cons edge l ih =>
      rw [List.forall_mem_cons] at hl
      rw [List.foldl_cons, hl.1, outlineEdge_self]
      exact ih hl.2
  simp only [pgImage, hfill, Option.get_some]
  exact houtline _ hself _

end

section

variable {z : Rows} {m : Mask z} {c : Settings} {s : Scan} {p : Pixel} {l : List Pixel}

theorem foldl_visit_of_not_white (h : ∀ q ∈ l, s.buff q ≠ kWhite) :
    l.foldl (Scan.visit z c) s = s := by
  induction l with
  | nil => rfl
  | cons q l ih =>
    rw [List.forall_mem_cons] at h
    have hvisit : s.visit z c q = s := by
      rw [Scan.visit, if_neg h.1, ite_self]
    rw [List.foldl_cons, hvisit]
    exact ih h.2

theorem scanBlobs_single (hm : m.white = {p}) :
    (z.scanBlobs c m.buffer).alarmBlobs = 1 ∧ (z.scanBlobs c m.buffer).aborted = false := by
  have hp : p ∈ z.pixels := m.inside p (by rw [hm]; exact Finset.mem_singleton_self p)
  have hbuff : ∀ q, m.buffer q = if q = p then kWhite else kBlack := by
    intro q
    rw [Mask.buffer, hm]
    simp only [Finset.mem_singleton]
  have hblack : ∀ q, q ≠ p → m.buffer q = 0 := fun q hq ↦ by rw [hbuff, if_neg hq, kBlack]
  obtain ⟨before, after, hsplit⟩ := List.append_of_mem hp
  have hnodup := z.nodup_pixels
  rw [hsplit, List.nodup_append] at hnodup
  have hbefore : ∀ q ∈ before, q ≠ p := fun q hq ↦ hnodup.2.2 q hq p List.mem_cons_self
  have hafter : ∀ q ∈ after, q ≠ p := by
    rintro q hq rfl
    exact (List.nodup_cons.mp hnodup.2.1).1 hq
  have hvisit : Scan.visit z c { buff := m.buffer } p =
      { buff := Function.update m.buffer p 254
        blobs := Function.update (fun _ ↦ {}) 254 ⟨254, 1, p.1, p.1, p.2, p.2⟩
        alarmBlobs := 1
        alarmBlobPixels := 1 } := by
    have hx : Scan.lastX z { buff := m.buffer } p = 0 := by
      rw [Scan.lastX]
      split
      · exact hblack _ fun h ↦ absurd (congrArg Prod.fst h) (by simp)
      · rfl
    have hy : Scan.lastY z { buff := m.buffer } p = 0 := by
      rw [Scan.lastY]
      split
      · exact hblack _ fun h ↦ absurd (congrArg Prod.snd h) (by simp)
      · rfl
    have hwhite : m.buffer p = kWhite := by rw [hbuff, if_pos rfl]
    rw [Scan.visit, if_neg (by simp), if_pos hwhite, hx, hy]
    rfl
  have hbegin : before.foldl (Scan.visit z c) { buff := m.buffer } = { buff := m.buffer } := by
    refine foldl_visit_of_not_white fun q hq ↦ ?_
    dsimp only
    rw [hblack q (hbefore q hq)]
    decide
  rw [Rows.scanBlobs, hsplit, List.foldl_append, List.foldl_cons, hbegin, hvisit,
    foldl_visit_of_not_white]
  · exact ⟨rfl, rfl⟩
  · intro q hq
    dsimp only
    rw [Function.update_of_ne (hafter q hq), hblack q (hafter q hq)]
    decide

theorem foldl_settle (hc : ∀ n, c.eliminates n = false) (l : List ℕ) (s : BlobCheck) :
    (l.foldl (BlobCheck.settle c) s).toScan = s.toScan := by
  induction l generalizing s with
  | nil => rfl
  | cons t l ih =>
    rw [List.foldl_cons, ih, BlobCheck.settle]
    dsimp only
    rw [hc]
    split <;> rfl

theorem checkBlobs_single (hm : m.white = {p}) (hc : ∀ n, c.eliminates n = false) :
    (z.checkBlobs c m.buffer).alarmBlobs = 1 ∧ (z.checkBlobs c m.buffer).aborted = false := by
  have hsingle := scanBlobs_single (c := c) hm
  rw [Rows.checkBlobs, if_neg (by rw [hsingle.1]; decide), foldl_settle hc]
  exact hsingle

end

/-- A delta with one bright pixel. -/
def spot (size : MonitorSize) (p : Vector2) : GrayImage :=
  (GrayImage.clear size.width size.height).set p.x p.y 255

theorem le_alignedTo32 (n : ℕ) : n ≤ alignedTo32 n := by
  rw [alignedTo32]
  omega

theorem index_inj {n x x' y y' : ℤ} (hx : 0 ≤ x ∧ x < n) (hx' : 0 ≤ x' ∧ x' < n)
    (h : y * n + x = y' * n + x') : x = x' ∧ y = y' := by
  have hrow : ∀ x y : ℤ, 0 ≤ x ∧ x < n → (y * n + x) / n = y := by
    intro x y hx
    rw [add_comm, Int.add_mul_ediv_right _ _ (by omega), Int.ediv_eq_zero_of_lt hx.1 hx.2, zero_add]
  have hy : y = y' := by
    calc y = (y * n + x) / n := (hrow x y hx).symm
      _ = (y' * n + x') / n := by rw [h]
      _ = y' := hrow x' y' hx'
  rw [hy] at h
  exact ⟨add_left_cancel h, hy⟩

theorem filter_eq_singleton {α : Type*} [DecidableEq α] {l : List α} {f : α → Bool} {a : α}
    (hl : l.Nodup) (ha : a ∈ l) (h : ∀ b ∈ l, f b = decide (b = a)) : l.filter f = [a] := by
  rw [List.filter_congr h, List.filter_eq, List.count_eq_one_of_mem hl ha]
  rfl

section

variable {D : Doubles} {size : MonitorSize} {p : Vector2} {z : Rows} {zone : ZoneSetup}

theorem spot_pixel (hp : 0 ≤ p.x ∧ p.x ≤ size.width - 1) {x y : ℤ} (hx : 0 ≤ x ∧ x < size.width) :
    (spot size p).pixel x y = if (x, y) = (p.x, p.y) then 255 else 0 := by
  have hle : (size.width : ℤ) ≤ alignedTo32 size.width := by exact_mod_cast le_alignedTo32 _
  change Function.update (fun _ ↦ (0 : UInt8)) (p.y * alignedTo32 size.width + p.x) 255 (y *
    alignedTo32 size.width + x) = _
  rw [Function.update_apply]
  refine if_congr ⟨fun h ↦ ?_, fun h ↦ ?_⟩ rfl rfl
  · obtain ⟨rfl, rfl⟩ := index_inj (by omega) (by omega) h
    rfl
  · obtain ⟨rfl, rfl⟩ := Prod.mk.inj h
    rfl

/-- Without thresholds for the difference, the bright pixel is the one that is alarmed. -/
theorem alarmedPixels_spot (hmin : zone.minPixelThreshold = 0) (hmax : zone.maxPixelThreshold = 0)
    (hp : 0 ≤ p.x ∧ p.x ≤ size.width - 1) (hmem : (p.x, p.y) ∈ z.pixels)
    (hpaint : zone.pgImage.pixel p.x p.y ≠ 0) :
    zone.alarmedPixels (spot size p) z = [(p.x, p.y)] := by
  refine filter_eq_singleton (Rows.nodup_pixels _) (Rows.mem_pixels_cut.mpr ⟨hmem, ?_⟩) ?_
  · change p.x < (size.width : ℤ)
    omega
  · rintro ⟨x, y⟩ hq
    obtain ⟨hin, hlt⟩ := Rows.mem_pixels_cut.mp hq
    rw [Rows.mem_pixels] at hin
    have hx : 0 ≤ x ∧ x < size.width := ⟨hin.2.1.trans hin.2.2.1, hlt⟩
    rw [ZoneSetup.pixelAlarmed, spot_pixel hp hx, ZoneSetup.calcMin, ZoneSetup.calcMax, hmin, hmax]
    split
    · next heq =>
      obtain ⟨rfl, rfl⟩ := Prod.mk.inj heq
      rw [decide_eq_true rfl, bne_iff_ne.mpr hpaint]
      decide
    · next hne =>
      rw [decide_eq_false hne, Bool.and_eq_false_iff]
      right
      decide

end

/-- A zone without minima, and without thresholds and a filter that keep a pixel from counting. -/
structure ZoneInputs.Bare (inputs : ZoneInputs) : Prop where
  minPixelThreshold : inputs.minPixelThreshold = 0
  maxPixelThreshold : inputs.maxPixelThreshold = 0
  filterBox : inputs.filterBox = ⟨0, 0⟩
  minAlarmPixels : inputs.minAlarmPixels = 0
  minFilterPixels : inputs.minFilterPixels = 0
  minBlobPixels : inputs.minBlobPixels = 0
  minBlobs : inputs.minBlobs = 0
  maxBlobs : inputs.maxBlobs = 0

section

variable {D : Doubles} {size : MonitorSize} {config : CheckConfig} {beyond : Beyond}
  {inputs : ZoneInputs} {zone : Zone} {p : Vector2} {z : Rows} {buff : Buffer}

theorem limit_one (max : ℕ) : limit 1 0 max = .within := by
  rw [limit, if_neg Int.one_ne_zero, if_neg (fun h ↦ h.1 rfl), if_neg]
  omega

/-- Within its limits a stage goes on, with a score, only when its maximum is set. -/
theorem stage_zeroDivision {count : ℤ} {max : ℕ} (harea : zone.polygon.area = 0)
    {next : Zone → Except Fault (Bool × Zone)}
    (hnext : max ≠ 0 → ∀ score, next { zone with stats := { zone.stats with score } } =
      .error .zeroDivision) :
    zone.stage .within count max next = .error .zeroDivision := by
  rw [Zone.stage]
  by_cases hmax : max = 0
  · rw [hmax, harea, scoreOf_zero]
    rfl
  · obtain ⟨score, hok, -⟩ := @scoreOf_ok count zone.polygon.area max (Or.inl hmax)
    rw [hok]
    exact hnext hmax score

variable {delta : GrayImage} {m : Mask z} {q : Pixel}

theorem checkBlobs_zeroDivision (hbare : zone.Bare) (harea : zone.polygon.area = 0)
    (hfits : z.fits delta.width = true) (hm : m.white = {q}) (hmax : zone.maxBlobPixels = 0) :
    zone.checkBlobs config beyond delta z m.buffer = .error .zeroDivision := by
  have hkeeps : ∀ n, (zone.settings config).eliminates n = false := by
    intro n
    simp [Settings.eliminates, ZoneSetup.settings, hbare.minBlobPixels, hmax]
  obtain ⟨hblobs, haborted⟩ := checkBlobs_single (z := z) hm hkeeps
  rw [Zone.checkBlobs, if_pos hfits]
  dsimp only
  rw [haborted, if_neg Bool.false_ne_true, hblobs, hbare.minBlobs, hbare.maxBlobs, limit_one]
  exact stage_zeroDivision (by exact harea) fun h ↦ absurd hmax h

theorem checkFilter_zeroDivision (hbare : zone.Bare) (harea : zone.polygon.area = 0)
    (hfits : z.fits delta.width = true) (hm : m.white = {q}) (hone : zone.stats.alarmPixels = 1)
    (hmax : zone.maxFilterPixels ≠ 0 →
      zone.checkMethod.value ≥ CheckMethod.blobs.value ∧ zone.maxBlobPixels = 0) :
    zone.checkFilter config beyond delta z m.buffer = .error .zeroDivision := by
  have hfilter : z.filterPixels (zone.filterBox.x, zone.filterBox.y) zone.stats.alarmPixels
      m.buffer = ⟨m.buffer, 1⟩ := by
    rw [hbare.filterBox, hone]
    rfl
  rw [Zone.checkFilter, if_pos hfits, hfilter]
  dsimp only
  rw [Nat.cast_one, hbare.minFilterPixels, limit_one]
  refine stage_zeroDivision (by exact harea) fun hset score ↦ ?_
  obtain ⟨hmethod, hblobs⟩ := hmax hset
  rw [if_pos hmethod]
  exact checkBlobs_zeroDivision hbare harea hfits hm hblobs

theorem checkPixels_zeroDivision (hbare : zone.Bare) (harea : zone.polygon.area = 0)
    (hfits : z.fits delta.width = true) (hq : zone.alarmedPixels delta z = [q])
    (hmax : ¬ zone.MaximaSet) :
    zone.checkPixels config beyond delta z = .error .zeroDivision := by
  obtain ⟨diff, hdiff⟩ := pixelDiff_ok ((zone.alarmedPixels delta z).map fun p ↦
    (delta.pixel p.1 p.2).toNat).sum (zone.alarmedPixels delta z).length
  rw [Zone.checkPixels]
  dsimp only
  rw [hdiff, ok_bind, hq]
  dsimp only [List.length_singleton]
  rw [Nat.cast_one, hbare.minAlarmPixels, limit_one]
  refine stage_zeroDivision (by exact harea) fun hset score ↦ ?_
  by_cases hmethod : zone.checkMethod.value ≥ CheckMethod.filteredPixels.value
  · rw [if_pos hmethod]
    refine checkFilter_zeroDivision hbare harea hfits (q := q) ?_ rfl fun hfilter ↦ ?_
    · change (zone.alarmedPixels delta z).toFinset = {q}
      rw [hq]
      rfl
    · by_contra hblobs
      refine hmax ⟨hset, fun _ ↦ hfilter, fun hm hzero ↦ hblobs ⟨hm, hzero⟩⟩
  · have hlt : ¬ zone.checkMethod.value ≥ CheckMethod.blobs.value := by
      simp only [CheckMethod.value] at hmethod ⊢
      omega
    exact absurd ⟨hset, fun h ↦ absurd h hmethod, fun h ↦ absurd h hlt⟩ hmax

/-- What Setup leaves of a polygon without an area that is more than a point is enough to divide by
zero. -/
theorem checkAlarms_spot (hbare : inputs.Bare)
    (hplaced : Placed size.width size.height inputs.polygon)
    (harea : inputs.polygon.area = 0) (edge : Vector2 × Vector2)
    (hedge : edge ∈ edges inputs.polygon.vertices) (hne : edge.1 ≠ edge.2)
    (hmax : ¬ (setup D size.width size.height inputs).MaximaSet) :
    (setup D size.width size.height inputs).checkAlarms config beyond (spot size edge.1) =
      .error .zeroDivision := by
  have hwidth := size.width_mem
  have hheight := size.height_mem
  have hv : edge.1 ∈ inputs.polygon.vertices := (mem_of_mem_edges hedge).1
  obtain ⟨hx, hy⟩ := hplaced.inside _ hv
  obtain ⟨hlo, hhi⟩ := hplaced.extent _ hv
  have hpaint := pgImage_start (D := D) hplaced (by omega) hedge hne
  have hpgwidth : (pgImage D size.width size.height inputs.polygon).width = size.width :=
    clear_within_pgImage.width
  have hlt : ∀ y, ((pgImage D size.width size.height inputs.polygon).range y).hiX < size.width := by
    intro y
    have h := range_lt (pgImage D size.width size.height inputs.polygon) y
    rw [hpgwidth] at h
    exact h hwidth.1
  have hspan := range_spans (by rw [hpgwidth]; exact hx) hpaint
  let z : Rows := ⟨(pgImage D size.width size.height inputs.polygon).range,
    inputs.polygon.extent.lo.y, min inputs.polygon.extent.hi.y (size.height - 1), hplaced.inImage⟩
  have hmem : (edge.1.x, edge.1.y) ∈ z.pixels :=
    z.mem_pixels.mpr ⟨⟨hlo, le_min hhi hy.2⟩, hspan⟩
  have hpixels : (setup D size.width size.height inputs).resetStats.checkPixels config beyond
      (spot size edge.1) z = .error .zeroDivision := by
    refine checkPixels_zeroDivision hbare harea ?_
      (alarmedPixels_spot hbare.minPixelThreshold hbare.maxPixelThreshold hx hmem hpaint) hmax
    rw [Rows.fits, List.all_eq_true]
    exact fun y _ ↦ decide_eq_true (Or.inr (Or.inr (hlt y)))
  have hoverruns : ¬ z.overruns size.width = true := by
    rw [Rows.overruns, List.any_eq_true]
    rintro ⟨y, -, h⟩
    have hrange := of_decide_eq_true h
    have hend := hlt y
    dsimp only [z] at hrange
    omega
  have hsize : ¬ ((spot size edge.1).width = 0 ∨ (spot size edge.1).height = 0) := by
    change ¬ (size.width = 0 ∨ size.height = 0)
    omega
  have hrows : ¬ inputs.polygon.extent.lo.y > min inputs.polygon.extent.hi.y (size.height - 1) :=
    not_lt.mpr (hlo.trans (le_min hhi hy.2))
  have hrun : (setup D size.width size.height inputs).resetStats.overloadCount = 0 := rfl
  rw [Zone.checkAlarms]
  dsimp only
  rw [if_neg (not_not.mpr hrun), if_neg hsize]
  exact (if_neg hrows).trans ((dif_pos hplaced.inImage).trans ((if_neg hoverruns).trans hpixels))

end

theorem exists_edge_ne {vertices : List Vector2} (h : ¬ ∃ v, ∀ w ∈ vertices, w = v) :
    ∃ edge ∈ edges vertices, edge.1 ≠ edge.2 := by
  cases vertices with
  | nil => exact absurd ⟨⟨0, 0⟩, fun _ hw ↦ absurd hw List.not_mem_nil⟩ h
  | cons v vertices =>
    obtain ⟨w, hw, hne⟩ : ∃ w ∈ v :: vertices, w ≠ v := by
      by_contra hall
      refine h ⟨v, fun w hw ↦ ?_⟩
      by_contra hne
      exact hall ⟨w, hw, hne⟩
    have hcount := two_le_countP_edges (fun u ↦ decide (u = v)) List.mem_cons_self hw
      (by simpa using hne)
    obtain ⟨edge, hedge, hdiff⟩ := List.countP_pos_iff.mp (Nat.zero_lt_two.trans_le hcount)
    refine ⟨edge, hedge, fun heq ↦ ?_⟩
    rw [heq, bne_self_eq_false] at hdiff
    exact Bool.false_ne_true hdiff

/-- An active zone for blobs, without minima and maxima. -/
def openRow (coords : CString) : Row exactDoubles where
  id := 1
  name := "All"
  type := .active
  coords
  checkMethod := .blobs
  minPixelThreshold := 0
  maxPixelThreshold := 0
  minAlarmPixels := exactDoubles.ofInt 0
  maxAlarmPixels := exactDoubles.ofInt 0
  filterX := 0
  filterY := 0
  minFilterPixels := exactDoubles.ofInt 0
  maxFilterPixels := exactDoubles.ofInt 0
  minBlobPixels := exactDoubles.ofInt 0
  maxBlobPixels := exactDoubles.ofInt 0
  minBlobs := 0
  maxBlobs := 0
  overloadFrames := 0
  extendAlarmFrames := 0

theorem maxAlarmPixels_openRow (coords : CString) (polygon : Polygon) :
    (loadInputs exactDoubles (openRow coords) polygon).maxAlarmPixels = 0 :=
  thresholdPixels_zero exactDoubles coords polygon.area

theorem vga_mem : (0 < 640 ∧ 640 < 2 ^ 16) ∧ 0 < 480 ∧ 480 < 2 ^ 16 := by decide

def vga : MonitorSize := ⟨640, 480, vga_mem.1, vga_mem.2⟩

/-- A line across the image. -/
def line : CString := "0,0 10,0 20,0".toList

theorem loadPolygon_line : loadPolygon (fun _ _ ↦ 0) vga line =
    .ok (some (.ofVertices [⟨0, 0⟩, ⟨10, 0⟩, ⟨20, 0⟩])) := by
  let vertex : CString → CString → Vector2 := fun x y ↦ ⟨atoi x, atoi y⟩
  have h₁ : readVertex vertex line = some ([⟨0, 0⟩], some "10,0 20,0".toList) := by
    decide +kernel
  have h₂ : readVertex vertex "10,0 20,0".toList = some ([⟨10, 0⟩], some "20,0".toList) := by
    decide +kernel
  have h₃ : readVertex vertex "20,0".toList = some ([⟨20, 0⟩], none) := by decide +kernel
  have hcoords : coordinates vertex line = some [⟨0, 0⟩, ⟨10, 0⟩, ⟨20, 0⟩] := by
    rw [coordinates_eq (by decide), h₁]
    dsimp only
    rw [coordinates_eq (by decide), h₂]
    dsimp only
    rw [coordinates_eq (by decide), h₃]
    rfl
  rw [loadPolygon, parsePolygonString, hcoords]
  rfl

theorem area_line : (Polygon.ofVertices [⟨0, 0⟩, ⟨10, 0⟩, ⟨20, 0⟩]).area = 0 := by decide +kernel

/-- Rows that differ only in what does not name the polygon, the method and the maxima. -/
structure Row.Alike {D : Doubles} (row row' : Row D) : Prop where
  coords : row'.coords = row.coords
  type : row'.type = row.type
  checkMethod : row'.checkMethod = row.checkMethod
  maxAlarmPixels : row'.maxAlarmPixels = row.maxAlarmPixels
  maxFilterPixels : row'.maxFilterPixels = row.maxFilterPixels
  maxBlobPixels : row'.maxBlobPixels = row.maxBlobPixels

/-- A row with its minima, its thresholds and its filter at zero. -/
def Row.bare {D : Doubles} (row : Row D) : Row D :=
  { row with
    minPixelThreshold := 0, maxPixelThreshold := 0, filterX := 0, filterY := 0
    minAlarmPixels := D.ofInt 0, minFilterPixels := D.ofInt 0, minBlobPixels := D.ofInt 0
    minBlobs := 0, maxBlobs := 0 }

section

variable {D : Doubles} {percent : CString → ℕ → ℤ} {size : MonitorSize} {row row' : Row D}
  {polygon : Polygon} {zone state : Zone} {config : CheckConfig} {beyond : Beyond}
  {delta : GrayImage}

theorem Row.alike_bare (row : Row D) : row.Alike row.bare := ⟨rfl, rfl, rfl, rfl, rfl, rfl⟩

theorem bare_loadInputs (row : Row D) : (loadInputs D row.bare polygon).Bare := by
  have hzero := thresholdPixels_zero D row.coords polygon.area
  rw [loadInputs]
  split
  · exact ⟨rfl, rfl, rfl, rfl, rfl, rfl, rfl, rfl⟩
  · exact ⟨rfl, rfl, rfl, rfl, rfl, rfl, rfl, rfl⟩
  · exact ⟨rfl, rfl, rfl, hzero, hzero, hzero, rfl, rfl⟩

theorem maximaSet_congr {zone zone' : Zone} (h : zone'.toZoneInputs = zone.toZoneInputs) :
    zone'.MaximaSet ↔ zone.MaximaSet := by
  rw [Zone.MaximaSet, h]
  rfl

theorem Row.Alike.maximaSet (h : row.Alike row') (width height : ℕ) :
    (setup D width height (loadInputs D row' polygon)).MaximaSet ↔
      (setup D width height (loadInputs D row polygon)).MaximaSet := by
  have hinputs : ∀ row : Row D, (setup D width height (loadInputs D row polygon)).toZoneInputs =
      loadInputs D row polygon := fun _ ↦ rfl
  rw [Zone.MaximaSet, Zone.MaximaSet, hinputs, hinputs, loadInputs, loadInputs, h.coords,
    h.type, h.checkMethod, h.maxAlarmPixels, h.maxFilterPixels, h.maxBlobPixels]
  cases row.type <;> rfl

/-- Exactly when no zone with a polygon, a method and maxima divides by zero, in whatever state and
whatever the frame. -/
theorem scoring_safe_iff (config : CheckConfig) (beyond : Beyond)
    (hload : load D percent size row = .ok (some zone)) :
    (∀ (row' : Row D) (zone' state : Zone) delta, row.Alike row' →
      load D percent size row' = .ok (some zone') → state.toZoneSetup = zone'.toZoneSetup →
      state.checkAlarms config beyond delta ≠ .error .zeroDivision) ↔
    zone.polygon.area ≠ 0 ∨ (∃ v, ∀ w ∈ zone.polygon.vertices, w = v) ∨ zone.MaximaSet := by
  obtain ⟨polygon, hplaced, rfl, hpolygon⟩ := load_eq hload
  have hsame : (setup D size.width size.height (loadInputs D row polygon)).polygon = polygon :=
    polygon_loadInputs
  rw [hsame]
  constructor
  · intro hsafe
    by_contra hcond
    rw [not_or, not_or, not_not] at hcond
    obtain ⟨harea, hpoint, hmaxima⟩ := hcond
    obtain ⟨edge, hedge, hne⟩ := exists_edge_ne hpoint
    have hbare : load D percent size row.bare = .ok (some (setup D size.width size.height
        (loadInputs D row.bare polygon))) := load_of_polygon _ hpolygon
    refine hsafe row.bare _ _ (spot size edge.1) row.alike_bare hbare rfl ?_
    have hsame' : (loadInputs D row.bare polygon).polygon = polygon := polygon_loadInputs
    refine checkAlarms_spot (bare_loadInputs row) ?_ ?_ _ ?_ hne ?_
    · rw [hsame']
      exact hplaced
    · rw [hsame', harea]
    · rw [hsame']
      exact hedge
    · rw [row.alike_bare.maximaSet]
      exact hmaxima
  · intro hcond row' zone' state delta halike hload' hstate
    obtain ⟨polygon', -, rfl, hpolygon'⟩ := load_eq hload'
    rw [halike.coords, hpolygon] at hpolygon'
    obtain rfl := Option.some.inj (Except.ok.inj hpolygon')
    have hends := Zone.Ends.checkAlarms config beyond delta state
    have hpolygon : state.polygon = polygon := by
      rw [hstate]
      exact polygon_loadInputs
    have hset : state.MaximaSet ↔
        (setup D size.width size.height (loadInputs D row polygon)).MaximaSet :=
      (maximaSet_congr (by rw [hstate])).trans (halike.maximaSet _ _)
    intro herror
    rw [herror] at hends
    rcases hcond with harea | ⟨v, hpoint⟩ | hmaxima
    · exact hends (Or.inl (by rwa [hpolygon])) rfl
    · refine Zone.checkAlarms_of_blank (fun x y ↦ ?_) herror
      rw [hstate]
      change (pgImage D size.width size.height (loadInputs D row' polygon).polygon).pixel x y = 0
      rw [polygon_loadInputs, pgImage_point hpoint]
      rfl
    · exact hends (Or.inr (hset.mpr hmaxima)) rfl

end

theorem scoring_safe_iff_line :
    ¬ ∀ (row' : Row exactDoubles) (zone' state : Zone) delta,
      (openRow line).Alike row' →
      load exactDoubles (fun _ _ ↦ 0) vga row' = .ok (some zone') →
      state.toZoneSetup = zone'.toZoneSetup →
      state.checkAlarms ⟨0, false, false⟩ ⟨fun _ _ ↦ none, fun _ _ ↦ none⟩ delta ≠
        .error .zeroDivision := by
  intro hsafe
  have hload := load_of_polygon (openRow line) loadPolygon_line
  rcases (scoring_safe_iff _ _ hload).mp hsafe with harea | ⟨v, hpoint⟩ | hmaxima
  · exact harea area_line
  · have h₁ := hpoint ⟨0, 0⟩ (by decide)
    have h₂ := hpoint ⟨10, 0⟩ (by decide)
    exact absurd (h₁.trans h₂.symm) (by decide)
  · exact hmaxima.1 (maxAlarmPixels_openRow line _)

/-- The zone of a line, and a frame with a change at its end. -/
theorem scoring_not_safe :
    ¬ ∀ (zone : Zone) (delta : GrayImage),
      load exactDoubles (fun _ _ ↦ 0) vga (openRow line) = .ok (some zone) →
      zone.checkAlarms ⟨0, false, false⟩ ⟨fun _ _ ↦ none, fun _ _ ↦ none⟩ delta ≠
        .error .zeroDivision := by
  intro hsafe
  refine hsafe _ (spot vga ⟨20, 0⟩) (load_of_polygon _ loadPolygon_line) ?_
  refine checkAlarms_spot (bare_loadInputs (openRow line)) ?_ ?_ (⟨20, 0⟩, ⟨0, 0⟩) ?_
    (by decide) ?_
  · exact placed_loadPolygon loadPolygon_line
  · exact area_line
  · decide
  · exact fun h ↦ h.1 (maxAlarmPixels_openRow line _)

end ZoneMinder.Zone
