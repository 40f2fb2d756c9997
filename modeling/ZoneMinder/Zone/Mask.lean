import Mathlib.Data.Finset.Prod
import Mathlib.Data.Int.Order.Basic
import Mathlib.Data.List.Nodup

namespace ZoneMinder.Zone

/-- A pixel as its x and its y. -/
abbrev Pixel := ℤ × ℤ

abbrev Buffer := Pixel → ℕ

def kBlack : ℕ := 0
def kWhite : ℕ := 255

structure Range where
  loX : ℤ := -1
  hiX : ℤ := 0
  deriving DecidableEq

/-- The rows of a polygon that lie in the image, and what it covers of each. -/
structure Rows where
  ranges : ℤ → Range
  loY : ℤ
  hiY : ℤ
  inImage : 0 ≤ loY

def upto (lo hi : ℤ) : List ℤ := (List.range (hi + 1 - lo).toNat).map fun n : ℕ ↦ lo + n

theorem mem_upto {lo hi v : ℤ} : v ∈ upto lo hi ↔ lo ≤ v ∧ v ≤ hi := by
  simp only [upto, List.mem_map, List.mem_range]
  refine ⟨?_, fun h ↦ ⟨(v - lo).toNat, by omega, by omega⟩⟩
  rintro ⟨n, hn, rfl⟩
  omega

theorem pairwise_upto (lo hi : ℤ) : (upto lo hi).Pairwise (· < ·) := by
  rw [upto, List.pairwise_map]
  apply List.pairwise_lt_range.imp
  intro a b hab
  omega

/-- The order in which the loops over the rows come to the pixels. -/
def Before (p q : Pixel) : Prop := p.2 < q.2 ∨ p.2 = q.2 ∧ p.1 < q.1

theorem Before.irrefl (p : Pixel) : ¬ Before p p := by
  unfold Before
  omega

theorem Before.asymm {p q : Pixel} (h : Before p q) : ¬ Before q p := by
  unfold Before at *
  omega

theorem pairwise_flatMap {f : ℤ → List Pixel} (lo hi : ℤ) (hf : ∀ y, (f y).Pairwise Before)
    (hrow : ∀ y, ∀ p ∈ f y, p.2 = y) : ((upto lo hi).flatMap f).Pairwise Before := by
  rw [List.flatMap, List.pairwise_flatten]
  constructor
  · intro l hl
    obtain ⟨y, -, rfl⟩ := List.mem_map.mp hl
    exact hf y
  · rw [List.pairwise_map]
    apply (pairwise_upto _ _).imp
    intro a b hab p hp q hq
    left
    rwa [hrow a p hp, hrow b q hq]

theorem pairwise_map (lo hi y : ℤ) : ((upto lo hi).map fun x ↦ (x, y)).Pairwise Before := by
  rw [List.pairwise_map]
  apply (pairwise_upto _ _).imp
  intro a b hab
  exact .inr ⟨rfl, hab⟩

theorem nodup_of_pairwise {l : List Pixel} (h : l.Pairwise Before) : l.Nodup := by
  apply h.imp
  rintro p q hpq rfl
  exact Before.irrefl p hpq

namespace Rows

variable (z : Rows)

def row (y : ℤ) : List Pixel :=
  if (z.ranges y).loX < 0 ∨ (z.ranges y).loX > (z.ranges y).hiX then []
  else (upto (z.ranges y).loX (z.ranges y).hiX).map fun x ↦ (x, y)

/-- The pixels that the loops over the rows visit, in their order. -/
def pixels : List Pixel := (upto z.loY z.hiY).flatMap z.row

theorem mem_row {y : ℤ} {p : Pixel} : p ∈ z.row y ↔
    p.2 = y ∧ 0 ≤ (z.ranges y).loX ∧ (z.ranges y).loX ≤ p.1 ∧ p.1 ≤ (z.ranges y).hiX := by
  obtain ⟨x, y'⟩ := p
  unfold row
  split
  · simp only [List.not_mem_nil, false_iff]
    omega
  · simp only [List.mem_map, mem_upto, Prod.mk.injEq]
    constructor
    · rintro ⟨v, hv, rfl, rfl⟩
      omega
    · rintro ⟨rfl, h⟩
      exact ⟨x, h.2, rfl, rfl⟩

theorem mem_pixels {p : Pixel} : p ∈ z.pixels ↔ (z.loY ≤ p.2 ∧ p.2 ≤ z.hiY) ∧
    0 ≤ (z.ranges p.2).loX ∧ (z.ranges p.2).loX ≤ p.1 ∧ p.1 ≤ (z.ranges p.2).hiX := by
  simp only [pixels, List.mem_flatMap, mem_upto, mem_row]
  constructor
  · rintro ⟨y, hy, rfl, h⟩
    exact ⟨hy, h⟩
  · rintro ⟨hy, h⟩
    exact ⟨p.2, hy, rfl, h⟩

theorem pairwise_row (y : ℤ) : (z.row y).Pairwise Before := by
  unfold row
  split
  · exact .nil
  · exact pairwise_map _ _ y

theorem pairwise_pixels : z.pixels.Pairwise Before :=
  pairwise_flatMap _ _ z.pairwise_row fun _ _ hp ↦ (z.mem_row.mp hp).1

theorem nodup_pixels : z.pixels.Nodup := nodup_of_pairwise z.pairwise_pixels

variable {z}

/-- What lies behind the loops is what comes before the pixel they are at. -/
theorem mem_visited {p q : Pixel} {before after : List Pixel}
    (hp : z.pixels = before ++ p :: after) : q ∈ before ↔ q ∈ z.pixels ∧ Before q p := by
  have hw := z.pairwise_pixels
  rw [hp, List.pairwise_append, List.pairwise_cons] at hw
  obtain ⟨-, ⟨hafter, -⟩, hbefore⟩ := hw
  rw [hp, List.mem_append, List.mem_cons]
  constructor
  · intro hq
    exact ⟨.inl hq, hbefore q hq p (List.mem_cons_self ..)⟩
  · rintro ⟨hq | rfl | hq, hlt⟩
    · exact hq
    · exact (Before.irrefl _ hlt).elim
    · exact (hlt.asymm (hafter q hq)).elim

end Rows

/-- What std_alarmedpixels leaves: white in some of the pixels it visits, black elsewhere. -/
structure Mask (z : Rows) where
  white : Finset Pixel
  inside : ∀ p ∈ white, p ∈ z.pixels

def Mask.buffer {z : Rows} (m : Mask z) : Buffer := fun p ↦ if p ∈ m.white then kWhite else kBlack

end ZoneMinder.Zone
