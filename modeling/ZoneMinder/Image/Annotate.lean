import ZoneMinder.Font
import ZoneMinder.Image.MaskPrivacy
import ZoneMinder.Lib.Raster
import ZoneMinder.Poly.Polygon

namespace ZoneMinder.Image

open Lib Font Poly

def kRGBTransparent : UInt32 := 0x01000000

/-- `zm::clamp` -/
def clamp (v lo hi : ℤ) : ℤ := if v < lo then lo else if hi < v then hi else v

theorem clamp_mem {v lo hi : ℤ} (h : lo ≤ hi) : lo ≤ clamp v lo hi ∧ clamp v lo hi ≤ hi := by
  rw [clamp]
  split_ifs <;> omega

def fontVariantIndex (size : ℤ) : Fin kNumFontSizes :=
  ⟨(clamp size 1 kNumFontSizes - 1).toNat, by
    have h := @clamp_mem size 1 kNumFontSizes (by decide)
    omega⟩

/-- An unsigned int of 32 bits, none where it wraps. -/
def unsigned (n : ℕ) : Option ℕ := if n < 2 ^ 32 then some n else none

/-- What the pixels of a text are drawn with. A pointer goes through the rows in steps of `unit`
bytes, which are so many for a pixel and for a row; there is no background where it is
transparent. -/
structure Pen where
  unit : ℕ
  pixel : ℕ
  stride : ℕ
  fg : List UInt8
  bg : Option (List UInt8)

namespace Pen

variable (pen : Pen) (v : FontVariant)

def plot (bytes : List UInt8) (pos : ℕ) (buffer : Plane) : Option Plane :=
  buffer.fill pos bytes.length (bytes[·]?)

def fillCell (ptr : ℕ) (buffer : Plane) : Option Plane :=
  match pen.bg with
  | none => some buffer
  | some bytes => (List.range v.charWidth.toNat).foldlM (fun buffer i ↦
      plot bytes (ptr + pen.unit * (i * pen.pixel)) buffer) buffer

/-- The column of the lowest bit; it is computed as an int and kept as an unsigned one. -/
def columnIdx (cpRow : UInt64) : ℕ :=
  toUnsigned (v.charWidth.toNat - ctz cpRow.toNat + v.charPadding.toNat)

theorem clear_lt {row : UInt64} (h : row ≠ 0) : (row &&& (row - 1)).toNat < row.toNat := by
  have hpos : row.toNat ≠ 0 := fun hzero ↦ h (UInt64.toNat_inj.mp hzero)
  have hle : (1 : UInt64) ≤ row := UInt64.le_iff_toNat_le.mpr (Nat.one_le_iff_ne_zero.mpr hpos)
  rw [UInt64.toNat_and, UInt64.toNat_sub_of_le _ _ hle]
  have hand := @Nat.and_le_right row.toNat (row.toNat - UInt64.toNat 1)
  have hone : UInt64.toNat 1 = 1 := rfl
  omega

/-- The bits that are set, from the lowest one on. -/
def drawBits (columnsLeft ptr : ℕ) (cpRow : UInt64) (buffer : Plane) : Option Plane :=
  if h : cpRow = 0 then some buffer
  else
    (if columnIdx v cpRow < columnsLeft then
      (unsigned (columnIdx v cpRow * pen.pixel)).bind fun offset ↦
        plot pen.fg (ptr + pen.unit * offset) buffer
    else some buffer).bind (drawBits columnsLeft ptr (cpRow &&& (cpRow - 1)))
termination_by cpRow.toNat
decreasing_by exact clear_lt h

def drawRows (columnsLeft : ℕ) : List UInt64 → ℕ → Plane → Option Plane
  | [], _, buffer => some buffer
  | cpRow :: rows, ptr, buffer =>
    ((pen.fillCell v ptr buffer).bind (pen.drawBits v columnsLeft ptr cpRow)).bind
      (drawRows columnsLeft rows (ptr + pen.unit * pen.stride))

end Pen

namespace Maskable

variable (a : Maskable)

def pen (fgColour bgColour : UInt32) : Option Pen :=
  let pen := fun unit pixel stride (bytes : UInt32 → List UInt8) ↦
    some ⟨unit, pixel, stride, bytes fgColour,
      if bgColour ≠ kRGBTransparent then some (bytes bgColour) else none⟩
  if a.imagePixFormat.bytesPerPixel = 1 then pen 1 1 a.linesize fun colour ↦ [byteOf colour 0]
  else if a.imagePixFormat.isRgb24 then
    pen 1 3 a.linesize fun colour ↦ [byteOf colour 0, byteOf colour 1, byteOf colour 2]
  else if a.imagePixFormat.isRgb32 then
    pen 4 1 (a.linesize / 4) fun colour ↦ rgbConvert colour a.subpixelorder
  else none

/-- A line of text from `x` on; the pointer goes down over the rows of a glyph and back again. -/
def drawLine (pen : Pen) (v : FontVariant) : Bytes → (x ptr : ℕ) → Plane → Option Plane
  | [], _, _, buffer => some buffer
  | c :: line, x, ptr, buffer => do
    let right ← unsigned (x + v.charWidth.toNat)
    if a.width < right then some buffer
    else
      let rows ← v.getCodepoint c
      let buffer ← pen.drawRows v (a.width - x) rows ptr buffer
      let below := ptr + pen.unit * pen.stride * rows.length
      let back ← unsigned (pen.stride * v.charHeight.toNat)
      drawLine pen v line right
        (below - pen.unit * back + pen.unit * (v.charWidth.toNat * pen.pixel)) buffer

def drawLines (v : FontVariant) (fgColour bgColour : UInt32) (x0 : ℕ) :
    List Bytes → (y : ℕ) → Plane → Option Plane
  | [], _, buffer => some buffer
  | line :: lines, y, buffer => do
    let bottom ← unsigned (y + v.charHeight.toNat)
    if a.height < bottom then some buffer
    else
      match a.pen fgColour bgColour with
      | none => some buffer -- an error is logged
      | some pen =>
        let row ← unsigned (y * a.linesize)
        let column ← unsigned (x0 * (pen.unit * pen.pixel))
        let ptr ← unsigned (row + column)
        let buffer ← a.drawLine pen v line x0 ptr buffer
        drawLines v fgColour bgColour x0 lines bottom buffer

def maxLineLength (lines : List Bytes) : ℕ := lines.foldl (fun n line ↦ max n line.length) 0

/-- Where the text begins, so that all of it is seen if it fits. -/
def startX (v : FontVariant) (lines : List Bytes) (coord : Vector2) : ℕ :=
  let x0Max := max 0 ((a.width : ℤ) - (maxLineLength lines * v.charWidth.toNat : ℕ))
  toUnsigned (clamp coord.x 0 x0Max)

def startY (v : FontVariant) (lines : List Bytes) (coord : Vector2) : ℕ :=
  let y0Max := max 0 ((a.height : ℤ) - (lines.length * v.charHeight.toNat : ℕ))
  toUnsigned (clamp coord.y 0 y0Max)

/-- None where something is read or written outside of the buffer or the bitmap of a glyph, or where
an unsigned int wraps on the way to a place in the buffer. -/
def annotate (font : ZmFont) (text : Bytes) (coord : Vector2) (size : UInt8)
    (fgColour bgColour : UInt32) (buffer : Plane) : Option Plane :=
  let v := font (fontVariantIndex size.toNat)
  let lines := text.splitOn 10
  a.drawLines v fgColour bgColour (a.startX v lines coord) lines (a.startY v lines coord) buffer

end Maskable

/-- The bytes of a colour. -/
def colour (bytes : List UInt8) (k : ℕ) : UInt8 := bytes.getD k 0

/-- A bit of a row of a glyph, by the column that it is for; the columns behind the glyph are those
of its padding. -/
def inked (v : FontVariant) (row : UInt64) (column : ℕ) : Bool :=
  column ≤ v.charWidth.toNat + v.charPadding.toNat &&
    row.toNat.testBit (v.charWidth.toNat + v.charPadding.toNat - column)

namespace Pen

/-- What a column of a glyph is drawn with. -/
def cell (pen : Pen) (v : FontVariant) (row : UInt64) (column : ℕ) : Option (ℕ → UInt8) :=
  if inked v row column then some (colour pen.fg)
  else if column < v.charWidth.toNat then pen.bg.map colour
  else none

/-- A pen for the pixels of a rectangle. -/
structure Fits (pen : Pen) (g : Raster) : Prop where
  pixel : pen.unit * pen.pixel = g.bytes
  stride : pen.unit * pen.stride = g.stride
  fg : pen.fg.length = g.bytes
  bg : ∀ bytes ∈ pen.bg, bytes.length = g.bytes
  bytes : 0 < g.bytes

variable {pen : Pen} {v : FontVariant} {g : Raster} {x y size : ℕ} {row : UInt64}

theorem plot_draws (hg : g.Within size) (hx : x < g.width) (hy : y < g.height)
    {bytes : List UInt8} (hbytes : bytes.length = g.bytes) {pos : ℕ} (hpos : pos = g.place x y 0) :
    g.Draws (plot bytes pos) size
      fun x' y' ↦ if x' = x ∧ y' = y then some (colour bytes) else none := by
  have hplot : plot bytes pos = fun c ↦ c.fill (g.place x y 0) g.bytes (bytes[·]?) := by
    funext c
    rw [plot, hpos, hbytes]
  rw [hplot]
  refine .plot hg hx hy fun k hk ↦ ?_
  rw [← hbytes] at hk
  rw [List.getElem?_eq_getElem hk, colour, List.getD_eq_getElem _ _ hk]

theorem Fits.place (hpen : pen.Fits g) (x y i : ℕ) :
    g.place x y 0 + pen.unit * (i * pen.pixel) = g.place (x + i) y 0 := by
  rw [Nat.mul_left_comm, hpen.pixel, Raster.place, Raster.place, Nat.add_mul]
  omega

theorem Fits.unit_pos (hpen : pen.Fits g) : 0 < pen.unit := by
  have hbytes := hpen.bytes
  rw [← hpen.pixel] at hbytes
  exact Nat.pos_of_mul_pos_right hbytes

theorem Fits.pixel_le (hpen : pen.Fits g) : pen.pixel ≤ g.bytes := by
  rw [← hpen.pixel]
  exact Nat.le_mul_of_pos_left _ hpen.unit_pos

theorem Fits.stride_le (hpen : pen.Fits g) : pen.stride ≤ g.stride := by
  rw [← hpen.stride]
  exact Nat.le_mul_of_pos_left _ hpen.unit_pos

theorem fillCell_draws (hg : g.Within size) (hpen : pen.Fits g)
    (hx : x + v.charWidth.toNat ≤ g.width) (hy : y < g.height) :
    g.Draws (pen.fillCell v (g.place x y 0)) size fun x' y' ↦
      if y' = y ∧ x ≤ x' ∧ x' - x < v.charWidth.toNat then pen.bg.map colour else none := by
  cases hbg : pen.bg with
  | none =>
    have hrun : pen.fillCell v (g.place x y 0) = some := by
      funext c
      rw [fillCell, hbg]
    rw [hrun]
    refine Raster.Draws.skip.congr fun x' _ y' _ ↦ ?_
    rw [Option.map_none, ite_self]
  | some bytes =>
    have hloop := Raster.Draws.range (g := g) (n := v.charWidth.toNat)
      (m := fun x' y' ↦ if y' = y ∧ x ≤ x' then some (colour bytes) else none)
      (f := fun i ↦ plot bytes (g.place x y 0 + pen.unit * (i * pen.pixel))) (fun x' _ ↦ x' - x)
      fun i hi ↦ (plot_draws hg (by omega) hy (hpen.bg bytes hbg) (hpen.place x y i)).congr
        fun x' _ y' _ ↦ by split_ifs <;> first | rfl | omega
    refine (hloop.of_eq fun c _ ↦ ?_).congr fun x' _ y' _ ↦ ?_
    · rw [fillCell, hbg]
    · rw [Option.map_some]
      split_ifs <;> first | rfl | omega

theorem ctz_lt (h : row ≠ 0) : ctz row.toNat < 64 := by
  have hpos : row.toNat ≠ 0 := fun hzero ↦ h (UInt64.toNat_inj.mp hzero)
  by_contra hge
  have hbit := testBit_ctz hpos
  rw [Nat.testBit_lt_two_pow (row.toNat_lt.trans_le
    (Nat.pow_le_pow_right (by decide) (not_lt.mp hge)))] at hbit
  cases hbit

/-- A column before the glyph has become one far behind every image. -/
theorem columnIdx_eq (h : row ≠ 0) {n : ℕ} (hn : n < 2 ^ 31) (hlt : columnIdx v row < n) :
    ctz row.toNat ≤ v.charWidth.toNat + v.charPadding.toNat ∧
      columnIdx v row = v.charWidth.toNat + v.charPadding.toNat - ctz row.toNat := by
  have hctz := ctz_lt h
  have hwidth := v.charWidth.toNat_lt
  have hpadding := v.charPadding.toNat_lt
  rw [columnIdx, toUnsigned] at hlt ⊢
  omega

theorem columnIdx_of_le (h : ctz row.toNat ≤ v.charWidth.toNat + v.charPadding.toNat) :
    columnIdx v row = v.charWidth.toNat + v.charPadding.toNat - ctz row.toNat := by
  have hwidth := v.charWidth.toNat_lt
  have hpadding := v.charPadding.toNat_lt
  rw [columnIdx, toUnsigned]
  omega

/-- Where the lowest bit of a row is drawn, and what the others are. -/
theorem inked_clear (h : row ≠ 0) (column : ℕ) : inked v row column ↔
    (ctz row.toNat ≤ v.charWidth.toNat + v.charPadding.toNat ∧ column = columnIdx v row) ∨
      inked v (row &&& (row - 1)) column := by
  have hpos : row.toNat ≠ 0 := fun hzero ↦ h (UInt64.toNat_inj.mp hzero)
  have hle : (1 : UInt64) ≤ row := UInt64.le_iff_toNat_le.mpr (Nat.one_le_iff_ne_zero.mpr hpos)
  have hclear : (row &&& (row - 1)).toNat = row.toNat &&& (row.toNat - 1) := by
    rw [UInt64.toNat_and, UInt64.toNat_sub_of_le _ _ hle]
    rfl
  simp only [inked, hclear, Bool.and_eq_true, decide_eq_true_eq, testBit_clear hpos]
  have hlowest := testBit_ctz hpos
  constructor
  · rintro ⟨hcolumn, hbit⟩
    by_cases heq : v.charWidth.toNat + v.charPadding.toNat - column = ctz row.toNat
    · refine .inl ⟨by omega, ?_⟩
      rw [columnIdx_of_le (by omega)]
      omega
    · exact .inr ⟨hcolumn, hbit, heq⟩
  · rintro (⟨hctz, rfl⟩ | ⟨hcolumn, hbit, -⟩)
    · rw [columnIdx_of_le hctz, Nat.sub_sub_self hctz]
      exact ⟨Nat.sub_le _ _, hlowest⟩
    · exact ⟨hcolumn, hbit⟩

theorem drawBits_draws (hg : g.Within size) (hpen : pen.Fits g) (hy : y < g.height)
    (hx : x ≤ g.width) (hwidth : g.width < 2 ^ 31) (hsmall : g.width * g.bytes < 2 ^ 32)
    (row : UInt64) :
    g.Draws (pen.drawBits v (g.width - x) (g.place x y 0) row) size fun x' y' ↦
      if y' = y ∧ x ≤ x' ∧ inked v row (x' - x) then some (colour pen.fg) else none := by
  induction hn : row.toNat using Nat.strong_induction_on generalizing row with
  | _ n ih =>
    by_cases hzero : row = 0
    · have hrun : pen.drawBits v (g.width - x) (g.place x y 0) row = some := by
        funext c
        rw [drawBits, dif_pos hzero]
      rw [hrun]
      refine Raster.Draws.skip.congr fun x' _ y' _ ↦ ?_
      rw [if_neg]
      rintro ⟨-, -, hink⟩
      simp [inked, hzero] at hink
    · have hrest := ih _ (hn ▸ clear_lt hzero) (row &&& (row - 1)) rfl
      by_cases hlt : columnIdx v row < g.width - x
      · obtain ⟨hctz, -⟩ := columnIdx_eq hzero (by omega) hlt
        have hpixel : columnIdx v row * pen.pixel < 2 ^ 32 :=
          (Nat.mul_le_mul (by omega) hpen.pixel_le).trans_lt hsmall
        have hplot := plot_draws hg (x := x + columnIdx v row) (by omega) hy hpen.fg
          (hpen.place x y (columnIdx v row))
        refine ((hplot.bind hrest).of_eq fun c _ ↦ ?_).congr fun x' _ y' _ ↦ ?_
        · rw [drawBits, dif_neg hzero, if_pos hlt, unsigned, if_pos hpixel, Option.bind_some]
        · have hclear := inked_clear (v := v) hzero (x' - x)
          grind
      · refine ((Raster.Draws.skip.bind hrest).of_eq fun c _ ↦ ?_).congr fun x' hx' y' _ ↦ ?_
        · rw [drawBits, dif_neg hzero, if_neg hlt]
        · have hclear := inked_clear (v := v) hzero (x' - x)
          grind

/-- What the rows of a glyph show from a place on. -/
def glyphShade (pen : Pen) (v : FontVariant) (rows : List UInt64) (x y : ℕ) : Shade UInt8 :=
  fun x' y' ↦ if x ≤ x' ∧ y ≤ y' then (rows[y' - y]?).bind fun row ↦ pen.cell v row (x' - x)
    else none

theorem drawRows_draws (hg : g.Within size) (hpen : pen.Fits g)
    (hx : x + v.charWidth.toNat ≤ g.width) (hwidth : g.width < 2 ^ 31)
    (hsmall : g.width * g.bytes < 2 ^ 32) (rows : List UInt64) (hy : y + rows.length ≤ g.height) :
    g.Draws (pen.drawRows v (g.width - x) rows (g.place x y 0)) size
      (pen.glyphShade v rows x y) := by
  induction rows generalizing y with
  | nil =>
    have hrun : pen.drawRows v (g.width - x) [] (g.place x y 0) = some := funext fun _ ↦ rfl
    rw [hrun]
    refine Raster.Draws.skip.congr fun x' _ y' _ ↦ ?_
    simp [glyphShade]
  | cons row rows ih =>
    rw [List.length_cons] at hy
    have hcell := fillCell_draws (y := y) hg hpen hx (by omega)
    have hbits := drawBits_draws (v := v) (x := x) (y := y) hg hpen (by omega) (by omega) hwidth
      hsmall row
    have hrest := @ih (y + 1) (by omega)
    have hnext : g.place x y 0 + pen.unit * pen.stride = g.place x (y + 1) 0 := by
      rw [hpen.stride, Raster.place, Raster.place, Nat.succ_mul]
      omega
    rw [← hnext] at hrest
    refine ((hcell.bind hbits).bind hrest).congr fun x' _ y' _ ↦ ?_
    simp only [glyphShade, cell]
    rcases lt_trichotomy y' y with hlt | rfl | hgt
    · rw [if_neg (by omega), if_neg (by omega), if_neg (by omega), if_neg (by omega)]
      rfl
    · rw [if_neg (by omega), Nat.sub_self, List.getElem?_cons_zero]
      by_cases hle : x ≤ x'
      · cases hink : inked v row (x' - x) <;> simp [hle, hink]
      · simp [hle]
    · obtain ⟨r, rfl⟩ := Nat.exists_eq_add_of_lt hgt
      have hsub : y + r + 1 - y = r + 1 := by omega
      have hsub' : y + r + 1 - (y + 1) = r := by omega
      have hne : y + r + 1 ≠ y := by omega
      have hle : y + 1 ≤ y + r + 1 := by omega
      simp [hsub, hsub', hne, hle, hgt.le]

end Pen

namespace Maskable

variable {a : Maskable} {pen : Pen} {v : FontVariant} {x y x0 size : ℕ}

/-- The pixels of the first plane. -/
def raster (a : Maskable) : Raster :=
  ⟨0, a.linesize, a.imagePixFormat.bytesPerPixel, a.width, a.height⟩

/-- An image of a supported format in a buffer of a size. Width and height come from ints, and the
size is an unsigned one. -/
structure Buffered (a : Maskable) (size : ℕ) : Prop where
  format : a.imagePixFormat ≠ .none
  width : a.width < 2 ^ 31
  height : a.height < 2 ^ 31
  small : size < 2 ^ 32
  row : a.width * a.imagePixFormat.bytesPerPixel ≤ a.linesize
  rows : a.linesize * a.height ≤ size

/-- The rows of pixels of 32 bits are gone through in steps of such pixels. -/
structure Drawable (a : Maskable) (size : ℕ) : Prop extends Buffered a size where
  whole : a.imagePixFormat.isRgb32 → 4 ∣ a.linesize

/-- What a line of text shows from a place on. -/
def lineShade (a : Maskable) (pen : Pen) (v : FontVariant) : Bytes → (x y : ℕ) → Shade UInt8
  | [], _, _ => fun _ _ ↦ none
  | c :: line, x, y =>
    if a.width < x + v.charWidth.toNat then fun _ _ ↦ none
    else fun x' y' ↦ (lineShade a pen v line (x + v.charWidth.toNat) y x' y').or
      (pen.glyphShade v ((v.getCodepoint c).getD []) x y x' y')

def linesShade (a : Maskable) (pen : Pen) (v : FontVariant) (x0 : ℕ) :
    List Bytes → (y : ℕ) → Shade UInt8
  | [], _ => fun _ _ ↦ none
  | line :: lines, y =>
    if a.height < y + v.charHeight.toNat then fun _ _ ↦ none
    else fun x' y' ↦ (linesShade a pen v x0 lines (y + v.charHeight.toNat) x' y').or
      (lineShade a pen v line x0 y x' y')

theorem Drawable.within (h : a.Drawable size) : a.raster.Within size where
  row := h.row
  rows y hy := by
    have hrow := h.row
    have hrows := h.rows
    have hle : (y + 1) * a.linesize ≤ a.height * a.linesize := Nat.mul_le_mul_right _ hy
    rw [Nat.succ_mul, Nat.mul_comm a.height] at hle
    simp only [raster]
    omega

theorem Drawable.exists_pen (h : a.Drawable size) (fgColour bgColour : UInt32) :
    ∃ pen, a.pen fgColour bgColour = some pen ∧ pen.Fits a.raster := by
  have hformat := h.format
  have hwhole := h.whole
  rw [Maskable.pen]
  cases hf : a.imagePixFormat <;> rw [hf] at hformat hwhole <;>
    simp [PixelFormat.bytesPerPixel, PixelFormat.isRgb24, PixelFormat.isRgb32] at hformat hwhole ⊢
      <;>
    constructor <;>
    simp [raster, hf, PixelFormat.bytesPerPixel, rgbConvert_length, Nat.mul_div_cancel' , hwhole]

theorem charHeight_pos (hv : v.Valid) : 0 < v.charHeight.toNat :=
  Nat.pos_of_ne_zero fun hzero ↦ hv.charHeight_ne (UInt16.toNat_inj.mp hzero)

/-- The pointer is at the top of the next glyph again. -/
theorem next_place (hpen : pen.Fits a.raster) (n : ℕ) :
    a.raster.place x y 0 + pen.unit * pen.stride * n - pen.unit * (pen.stride * n) +
      pen.unit * (v.charWidth.toNat * pen.pixel) =
      a.raster.place (x + v.charWidth.toNat) y 0 := by
  rw [← hpen.place, Nat.mul_assoc, Nat.add_sub_cancel]

theorem drawLine_draws (h : a.Drawable size) (hv : v.Valid) (hpen : pen.Fits a.raster)
    (hx : x ≤ a.width) (hy : y + v.charHeight.toNat ≤ a.height) (line : Bytes) :
    a.raster.Draws (a.drawLine pen v line x (a.raster.place x y 0)) size
      (a.lineShade pen v line x y) := by
  have hwidth := h.width
  have hcell := v.charWidth.toNat_lt
  have hsmall : a.linesize * a.height < 2 ^ 32 := h.rows.trans_lt h.small
  have hback : pen.stride * v.charHeight.toNat < 2 ^ 32 :=
    (Nat.mul_le_mul hpen.stride_le (by omega)).trans_lt hsmall
  have hheight := charHeight_pos hv
  have hpixels : a.raster.width * a.raster.bytes < 2 ^ 32 :=
    (h.row.trans (Nat.le_mul_of_pos_right _ (by omega))).trans_lt hsmall
  induction line generalizing x with
  | nil =>
    have hrun : a.drawLine pen v [] x (a.raster.place x y 0) = some := funext fun _ ↦ rfl
    rw [hrun]
    exact .skip
  | cons c line ih =>
    obtain ⟨rows, hrows, hlength⟩ := exists_getCodepoint hv.charHeight_le hv.bitmap c
    have hright : unsigned (x + v.charWidth.toNat) = some (x + v.charWidth.toNat) :=
      if_pos (by omega)
    by_cases hend : a.width < x + v.charWidth.toNat
    · have hrun : a.drawLine pen v (c :: line) x (a.raster.place x y 0) = some := by
        funext buffer
        rw [drawLine, hright]
        simp only [Option.bind_eq_bind, Option.bind_some, if_pos hend]
      rw [hrun, lineShade, if_pos hend]
      exact .skip
    · have hglyph := Pen.drawRows_draws (x := x) (y := y) (v := v) h.within hpen (not_lt.mp hend)
        hwidth hpixels rows (by rw [hlength]; exact hy)
      have hrest := @ih (x + v.charWidth.toNat) (not_lt.mp hend)
      rw [← next_place hpen v.charHeight.toNat] at hrest
      rw [lineShade, if_neg hend, hrows]
      refine (hglyph.bind hrest).of_eq fun buffer _ ↦ ?_
      rw [drawLine, hright]
      simp only [Option.bind_eq_bind, Option.bind_some, if_neg hend, hrows, hlength, unsigned,
        if_pos hback]
      rfl

theorem drawLines_draws (h : a.Drawable size) (hv : v.Valid) {fgColour bgColour : UInt32}
    (hpen : a.pen fgColour bgColour = some pen) (hfits : pen.Fits a.raster) (hx : x0 ≤ a.width)
    (hy : y ≤ a.height) (lines : List Bytes) :
    a.raster.Draws (a.drawLines v fgColour bgColour x0 lines y) size
      (a.linesShade pen v x0 lines y) := by
  have hheight := h.height
  have hcell := v.charHeight.toNat_lt
  have hpos := charHeight_pos hv
  have hsmall : a.linesize * a.height < 2 ^ 32 := h.rows.trans_lt h.small
  induction lines generalizing y with
  | nil =>
    have hrun : a.drawLines v fgColour bgColour x0 [] y = some := funext fun _ ↦ rfl
    rw [hrun]
    exact .skip
  | cons line lines ih =>
    have hbottom : unsigned (y + v.charHeight.toNat) = some (y + v.charHeight.toNat) :=
      if_pos (by omega)
    by_cases hend : a.height < y + v.charHeight.toNat
    · have hrun : a.drawLines v fgColour bgColour x0 (line :: lines) y = some := by
        funext buffer
        rw [drawLines, hbottom]
        simp only [Option.bind_eq_bind, Option.bind_some, if_pos hend]
      rw [hrun, linesShade, if_pos hend]
      exact .skip
    · have hline := drawLine_draws h hv hfits hx (not_lt.mp hend) line
      have hrest := @ih (y + v.charHeight.toNat) (not_lt.mp hend)
      have hplace : a.raster.place x0 y 0 = y * a.linesize + x0 * (pen.unit * pen.pixel) := by
        rw [hfits.pixel, Raster.place, Nat.add_zero]
        exact Nat.zero_add _
      have hin : y * a.linesize + x0 * (pen.unit * pen.pixel) < 2 ^ 32 := by
        have hrow := (Nat.mul_le_mul_right a.imagePixFormat.bytesPerPixel hx).trans h.row
        have hle : (y + 1) * a.linesize ≤ a.height * a.linesize :=
          Nat.mul_le_mul_right _ (by omega)
        rw [Nat.succ_mul, Nat.mul_comm a.height] at hle
        rw [hfits.pixel]
        simp only [raster]
        omega
      rw [hplace] at hline
      rw [linesShade, if_neg hend]
      refine (hline.bind hrest).of_eq fun buffer _ ↦ ?_
      rw [drawLines, hbottom]
      simp only [Option.bind_eq_bind, Option.bind_some, if_neg hend, hpen, unsigned,
        if_pos (show y * a.linesize < 2 ^ 32 by omega),
        if_pos (show x0 * (pen.unit * pen.pixel) < 2 ^ 32 by omega), if_pos hin]

section Drawn

variable {c : UInt8} {line : Bytes} {lines : List Bytes} {rows : List UInt64} {row : UInt64}
  {x' y' j k r column : ℕ} {bytes : ℕ → UInt8} {coord : Vector2}

theorem glyphShade_of_lt (h : x' < x ∨ y' < y) : pen.glyphShade v rows x y x' y' = none := by
  rw [Pen.glyphShade, if_neg]
  omega

theorem lineShade_of_lt (h : x' < x ∨ y' < y) : a.lineShade pen v line x y x' y' = none := by
  induction line generalizing x with
  | nil => rfl
  | cons c line ih =>
    rw [lineShade]
    split_ifs
    · rfl
    · dsimp only
      rw [ih (by omega), glyphShade_of_lt h]
      rfl

theorem linesShade_of_lt (h : y' < y) : a.linesShade pen v x0 lines y x' y' = none := by
  induction lines generalizing y with
  | nil => rfl
  | cons line lines ih =>
    rw [linesShade]
    split_ifs
    · rfl
    · dsimp only
      rw [ih (by omega), lineShade_of_lt (.inr h)]
      rfl

/-- What comes later in a line is further to the right. -/
theorem lineShade_eq (hfits : x + line.length * v.charWidth.toNat ≤ a.width)
    (hc : (line)[k]? = some c) (hrows : v.getCodepoint c = some rows) (hrow : rows[r]? = some row)
    (hcolumn : column < v.charWidth.toNat) (hcell : pen.cell v row column = some bytes) :
    a.lineShade pen v line x y (x + (k * v.charWidth.toNat + column)) (y + r) = some bytes := by
  induction line generalizing x k with
  | nil => cases hc
  | cons c' line ih =>
    rw [List.length_cons, Nat.succ_mul] at hfits
    rw [lineShade, if_neg (by omega)]
    cases k with
    | zero =>
      obtain rfl := Option.some.inj hc
      rw [lineShade_of_lt (by omega), Option.none_or, Pen.glyphShade, if_pos (by omega), hrows,
        Nat.zero_mul, Nat.zero_add, Nat.add_sub_cancel_left, Nat.add_sub_cancel_left,
        Option.getD_some, hrow]
      exact hcell
    | succ k =>
      have hplace : x + ((k + 1) * v.charWidth.toNat + column) =
          x + v.charWidth.toNat + (k * v.charWidth.toNat + column) := by
        rw [Nat.succ_mul]
        omega
      rw [hplace, ih (by omega) hc, Option.some_or]

theorem linesShade_eq (hwide : ∀ line ∈ lines, x0 + line.length * v.charWidth.toNat ≤ a.width)
    (hfits : y + lines.length * v.charHeight.toNat ≤ a.height) (hline : lines[j]? = some line)
    (hc : (line)[k]? = some c) (hrows : v.getCodepoint c = some rows) (hrow : rows[r]? = some row)
    (hr : r < v.charHeight.toNat) (hcolumn : column < v.charWidth.toNat)
    (hcell : pen.cell v row column = some bytes) :
    a.linesShade pen v x0 lines y (x0 + (k * v.charWidth.toNat + column))
      (y + (j * v.charHeight.toNat + r)) = some bytes := by
  induction lines generalizing y j with
  | nil => cases hline
  | cons line' lines ih =>
    rw [List.length_cons, Nat.succ_mul] at hfits
    rw [linesShade, if_neg (by omega)]
    cases j with
    | zero =>
      obtain rfl := Option.some.inj hline
      rw [linesShade_of_lt (by omega), Option.none_or, Nat.zero_mul, Nat.zero_add]
      exact lineShade_eq (hwide _ List.mem_cons_self) hc hrows hrow hcolumn hcell
    | succ j =>
      have hplace : y + ((j + 1) * v.charHeight.toNat + r) =
          y + v.charHeight.toNat + (j * v.charHeight.toNat + r) := by
        rw [Nat.succ_mul]
        omega
      rw [hplace, ih (fun line hline ↦ hwide line (List.mem_cons_of_mem _ hline)) (by omega) hline,
        Option.some_or]

theorem toUnsigned_clamp (v z : ℤ) : toUnsigned (clamp v 0 (max 0 z)) ≤ (max 0 z).toNat := by
  have hclamp := @clamp_mem v 0 (max 0 z) (le_max_left 0 z)
  rw [toUnsigned]
  omega

theorem startX_le (lines : List Bytes) (coord : Vector2) : a.startX v lines coord ≤ a.width ∧
    (maxLineLength lines * v.charWidth.toNat ≤ a.width →
      a.startX v lines coord + maxLineLength lines * v.charWidth.toNat ≤ a.width) := by
  have hstart := toUnsigned_clamp coord.x
    (a.width - (maxLineLength lines * v.charWidth.toNat : ℕ))
  rw [startX]
  omega

theorem startY_le (lines : List Bytes) (coord : Vector2) : a.startY v lines coord ≤ a.height ∧
    (lines.length * v.charHeight.toNat ≤ a.height →
      a.startY v lines coord + lines.length * v.charHeight.toNat ≤ a.height) := by
  have hstart := toUnsigned_clamp coord.y (a.height - (lines.length * v.charHeight.toNat : ℕ))
  rw [startY]
  omega

theorem length_le_maxLineLength (hline : line ∈ lines) : line.length ≤ maxLineLength lines := by
  have hle (n : ℕ) : n ≤ lines.foldl (fun n line ↦ max n line.length) n ∧
      ∀ line ∈ lines, line.length ≤ lines.foldl (fun n line ↦ max n line.length) n := by
    clear hline
    induction lines generalizing n with
    | nil => exact ⟨le_rfl, fun line h ↦ absurd h List.not_mem_nil⟩
    | cons line' lines ih =>
      rw [List.foldl_cons]
      obtain ⟨hn, hlines⟩ := ih (max n line'.length)
      refine ⟨(le_max_left _ _).trans hn, fun line hline ↦ ?_⟩
      rcases List.mem_cons.mp hline with rfl | hline
      · exact (le_max_right _ _).trans hn
      · exact hlines line hline
  exact (hle 0).2 line hline

/-- The glyphs of a text that begins at a place are seen: the bits of each that are for a column of
it are in the colour of the text, and its other pixels in that of the background, if there is one.
All of them are pixels of the image. -/
def Drawn (a : Maskable) (pen : Pen) (v : FontVariant) (lines : List Bytes) (x0 y0 : ℕ)
    (buffer : Plane) : Prop :=
  ∀ j line k c rows r row column, lines[j]? = some line → (line)[k]? = some c →
    v.getCodepoint c = some rows → rows[r]? = some row → column < v.charWidth.toNat →
    let x := x0 + (k * v.charWidth.toNat + column)
    let y := y0 + (j * v.charHeight.toNat + r)
    x < a.width ∧ y < a.height ∧
      (inked v row column → ∀ m < a.imagePixFormat.bytesPerPixel,
        buffer.content (a.raster.place x y m) = colour pen.fg m) ∧
      ∀ bg ∈ pen.bg, ¬ inked v row column → ∀ m < a.imagePixFormat.bytesPerPixel,
        buffer.content (a.raster.place x y m) = colour bg m

end Drawn

/-- Annotate draws inside of the image, and a text that fits is drawn as a whole. -/
theorem annotate_inside (h : a.Drawable size) {font : ZmFont} (hfont : ∀ i, (font i).Valid)
    (text : Bytes) (coord : Vector2) (labelSize : UInt8) (fgColour bgColour : UInt32)
    {buffer : Plane} (hbuffer : buffer.size = size) :
    let v := font (fontVariantIndex labelSize.toNat)
    let lines := text.splitOn 10
    ∃ pen annotated, a.pen fgColour bgColour = some pen ∧
      a.annotate font text coord labelSize fgColour bgColour buffer = some annotated ∧
      annotated.size = size ∧
      (∀ i, (¬∃ x < a.width, ∃ y < a.height, a.PixelByte x y i) →
        annotated.content i = buffer.content i) ∧
      (maxLineLength lines * v.charWidth.toNat ≤ a.width →
        lines.length * v.charHeight.toNat ≤ a.height →
        a.Drawn pen v lines (a.startX v lines coord) (a.startY v lines coord) annotated) := by
  intro v lines
  obtain ⟨pen, hpen, hfits⟩ := h.exists_pen fgColour bgColour
  obtain ⟨hx, hxfits⟩ := startX_le (v := v) lines coord
  obtain ⟨hy, hyfits⟩ := startY_le (v := v) lines coord
  obtain ⟨annotated, hannotated, hsize, hshown, hrest⟩ :=
    drawLines_draws h (hfont _) hpen hfits hx hy lines buffer hbuffer
  refine ⟨pen, annotated, hpen, hannotated, hsize, fun i hi ↦ hrest i ?_, fun hwide htall ↦ ?_⟩
  · rintro ⟨x, hx, y, hy, k, hk, rfl⟩
    exact hi ⟨x, hx, y, hy, k, hk, Nat.zero_add _⟩
  · intro j line k c rows r row column hline hc hrows hrow hcolumn x y
    obtain ⟨rows', hrows', hlength⟩ :=
      exists_getCodepoint (hfont _).charHeight_le (hfont _).bitmap c
    obtain rfl := Option.some.inj (hrows.symm.trans hrows')
    have hr := (List.getElem?_eq_some_iff.mp hrow).1
    have hlines := hxfits hwide
    have hwhole (line : Bytes) (hline : line ∈ lines) :
        a.startX v lines coord + line.length * v.charWidth.toNat ≤ a.width :=
      (Nat.add_le_add_left (Nat.mul_le_mul_right _ (length_le_maxLineLength hline)) _).trans hlines
    have hxlt : x < a.width := by
      have hcell := row_lt (List.getElem?_eq_some_iff.mp hc).1 hcolumn
      have hle := hwhole line (List.mem_of_getElem? hline)
      rw [Nat.mul_comm v.charWidth.toNat] at hcell
      omega
    have hylt : y < a.height := by
      have hcell : j * v.charHeight.toNat + r < v.charHeight.toNat * lines.length :=
        row_lt (List.getElem?_eq_some_iff.mp hline).1 (hr.trans_eq hlength)
      have hle := hyfits htall
      rw [Nat.mul_comm v.charHeight.toNat] at hcell
      omega
    have hcell {bytes : ℕ → UInt8} (hcell : pen.cell v row column = some bytes) (m : ℕ)
        (hm : m < a.imagePixFormat.bytesPerPixel) :
        annotated.content (a.raster.place x y m) = bytes m := by
      rw [hshown x hxlt y hylt m hm, linesShade_eq hwhole (hyfits htall) hline hc hrows hrow
        (hr.trans_eq hlength) hcolumn hcell]
      rfl
    refine ⟨hxlt, hylt, fun hink ↦ hcell ?_, fun bg hbg hink ↦ hcell ?_⟩
    · rw [Pen.cell, if_pos hink]
    · rw [Pen.cell, if_neg hink, if_pos hcolumn, hbg]
      rfl

/-- Two glyphs, each with a bit for its second column, are moved back into the lower right
corner. -/
theorem annotate_inside_corner : ∃ annotated,
    annotate ⟨5, 3, 32, 1, 2, .gray8⟩ (fun _ ↦ ⟨1, 2, 1, 1, [4]⟩) [0, 0] ⟨100, 100⟩ 9 255
      kRGBTransparent ⟨fun _ ↦ 7, 96⟩ = some annotated ∧ annotated.content (2 * 32 + 4) = 255 := by
  have hdrawable : Drawable ⟨5, 3, 32, 1, 2, .gray8⟩ 96 :=
    ⟨⟨by decide, by decide, by decide, by decide, by decide, by decide⟩, by decide⟩
  have hvalid : FontVariant.Valid ⟨1, 2, 1, 1, [4]⟩ :=
    ⟨by decide, by decide, by decide, by decide⟩
  have hfont : ∀ i, ((fun _ ↦ ⟨1, 2, 1, 1, [4]⟩ : ZmFont) i).Valid := fun _ ↦ hvalid
  have hbuffer : Cells.size (⟨fun _ ↦ 7, 96⟩ : Plane) = 96 := rfl
  obtain ⟨pen, annotated, hpen, hannotated, -, -, hdrawn⟩ :=
    annotate_inside hdrawable hfont [0, 0] ⟨100, 100⟩ 9 255 kRGBTransparent hbuffer
  obtain rfl := Option.some.inj hpen
  have hglyph := hdrawn (by decide) (by decide) 0 [0, 0] 1 0 [4] 0 4 1 (by decide) rfl (by decide)
    rfl (by decide)
  exact ⟨annotated, hannotated, hglyph.2.2.1 (by decide) 0 (by decide)⟩

/-- The second row of a glyph is drawn four bytes after the first, where the rows of the image are
six bytes apart. -/
theorem annotate_beside :
    Buffered ⟨1, 2, 6, 4, 8, .rgba⟩ 12 ∧ FontVariant.Valid ⟨2, 1, 0, 1, [0, 0]⟩ ∧
      ∃ annotated,
        annotate ⟨1, 2, 6, 4, 8, .rgba⟩ (fun _ ↦ ⟨2, 1, 0, 1, [0, 0]⟩) [0] ⟨0, 0⟩ 1 0 255
          ⟨fun _ ↦ 0, 12⟩ = some annotated ∧
        ∃ i, (¬∃ x < 1, ∃ y < 2, PixelByte ⟨1, 2, 6, 4, 8, .rgba⟩ x y i) ∧
          annotated.content i ≠ 0 := by
  refine ⟨⟨by decide, by decide, by decide, by decide, by decide, by decide⟩,
    ⟨by decide, by decide, by decide, by decide⟩, ?_⟩
  have hrun : (annotate ⟨1, 2, 6, 4, 8, .rgba⟩ (fun _ ↦ ⟨2, 1, 0, 1, [0, 0]⟩) [0] ⟨0, 0⟩ 1 0 255
      ⟨fun _ ↦ 0, 12⟩).any fun annotated ↦ annotated.content 4 ≠ 0 := by decide +kernel
  obtain ⟨annotated, hannotated, hwritten⟩ := (Option.any_eq_true _ _).mp hrun
  refine ⟨annotated, hannotated, 4, ?_, of_decide_eq_true hwritten⟩
  rintro ⟨x, hx, y, hy, k, hk, hplace⟩
  change k < 4 at hk
  change 4 = y * 6 + (x * 4 + k) at hplace
  omega

end Maskable

end ZoneMinder.Image
