import Mathlib.Algebra.BigOperators.Group.List.Basic
import Mathlib.Algebra.Order.Ring.Int
import Mathlib.Data.List.Basic
import Mathlib.Data.Int.Init

namespace Lib

section

variable {α : Type} (offset size : α → ℤ)

/-- The extents lie side by side from one position to another. -/
def SideBySide : ℤ → ℤ → List α → Prop
  | a, b, [] => a = b
  | a, b, x :: xs => offset x = a ∧ SideBySide (a + size x) b xs

/-- Extents recorded from left to right while a position moves on. The flag is whether
everything that was passed has been recorded. -/
inductive Recorded : ℤ → ℤ → Bool → List α → Prop
  | start (a : ℤ) : Recorded a a true []
  | keep {a b : ℤ} {whole : Bool} {xs : List α} (x : α) :
      Recorded a b whole xs → offset x = b → Recorded a (b + size x) whole (xs ++ [x])
  | skip {a b c : ℤ} {whole : Bool} {xs : List α} :
      Recorded a b whole xs → b < c → Recorded a c false xs

variable {offset size} {a b c : ℤ} {whole : Bool} {x : α} {xs : List α}

theorem SideBySide.snoc (h : SideBySide offset size a b xs) (hx : offset x = b) :
    SideBySide offset size a (b + size x) (xs ++ [x]) := by
  induction xs generalizing a with
  | nil =>
    obtain rfl : a = b := h
    exact ⟨hx, rfl⟩
  | cons y ys ih => exact ⟨h.1, ih h.2⟩

theorem SideBySide.sum_eq (h : SideBySide offset size a b xs) : a + (xs.map size).sum = b := by
  induction xs generalizing a with
  | nil =>
    rw [List.map_nil, List.sum_nil, add_zero]
    exact h
  | cons y ys ih =>
    rw [List.map_cons, List.sum_cons, ← add_assoc]
    exact ih h.2

namespace Recorded

theorem sideBySide (h : Recorded offset size a b whole xs) (hwhole : whole = true) :
    SideBySide offset size a b xs := by
  induction h with
  | start => rfl
  | keep x h hx ih => exact (ih hwhole).snoc hx
  | skip => contradiction

theorem sum_le (h : Recorded offset size a b whole xs) :
    a + (xs.map size).sum ≤ b ∧ (whole = false → a + (xs.map size).sum < b) := by
  induction h with
  | start => exact ⟨by simp, nofun⟩
  | keep x h hx ih =>
    rw [List.map_append, List.sum_append, List.map_singleton, List.sum_singleton, ← add_assoc]
    exact ⟨Int.add_le_add_right ih.1 _, fun hpart ↦ Int.add_lt_add_right (ih.2 hpart) _⟩
  | skip h hlt ih => exact ⟨ih.1.trans hlt.le, fun _ ↦ ih.1.trans_lt hlt⟩

/-- What has been passed without being recorded is never made up for. -/
theorem sideBySide_iff (h : Recorded offset size a b whole xs) :
    SideBySide offset size a b xs ↔ whole = true := by
  refine ⟨fun hside ↦ ?_, h.sideBySide⟩
  by_contra hpart
  exact (h.sum_le.2 (Bool.eq_false_iff.mpr hpart)).ne hside.sum_eq

end Recorded

end

variable {β : Type}

/-- The loop `while pos + header <= limit` that reads one item after the other, each from
where the last one stops: the items, and whether no read failed. -/
def segmentsFrom (read : ℤ → Option β) (stop : β → ℤ) (header limit : ℤ) : ℕ → ℤ → List β × Bool
  | 0, _ => ([], true)
  | n + 1, pos =>
    if pos + header ≤ limit then
      match read pos with
      | none => ([], false)
      | some b =>
        let (bs, ok) := segmentsFrom read stop header limit n (stop b)
        (b :: bs, ok)
    else ([], true)

def segments (read : ℤ → Option β) (stop : β → ℤ) (header limit pos : ℤ) : List β × Bool :=
  segmentsFrom read stop header limit (limit - pos).toNat pos

/-- The items lie side by side from one position to another. -/
def Tiled (read : ℤ → Option β) (stop : β → ℤ) : ℤ → List β → ℤ → Prop
  | pos, [], last => pos = last
  | pos, b :: bs, last => read pos = some b ∧ Tiled read stop (stop b) bs last

/-- The loop as it runs: what it has read when it ends, and whether no read failed. -/
inductive Ends (read : ℤ → Option β) (stop : β → ℤ) (header limit : ℤ) : ℤ → List β × Bool → Prop
  | done {pos : ℤ} : ¬pos + header ≤ limit → Ends read stop header limit pos ([], true)
  | failed {pos : ℤ} :
      pos + header ≤ limit → read pos = none → Ends read stop header limit pos ([], false)
  | next {pos : ℤ} {b : β} {bs : List β} {ok : Bool} :
      pos + header ≤ limit → read pos = some b → Ends read stop header limit (stop b) (bs, ok) →
      Ends read stop header limit pos (b :: bs, ok)

variable {read read' : ℤ → Option β} {stop : β → ℤ} {header limit pos last : ℤ} {b : β}
  {bs cs : List β} {ok : Bool} {m n : ℕ}

theorem Tiled.trans (h : Tiled read stop pos bs last) (h' : Tiled read stop last cs limit) :
    Tiled read stop pos (bs ++ cs) limit := by
  induction bs generalizing pos with
  | nil => exact (show pos = last from h) ▸ h'
  | cons b bs ih => exact ⟨h.1, ih h.2⟩

theorem Tiled.last_eq (h : Tiled read stop pos bs last) :
    (bs.getLast?.map stop).getD pos = last := by
  induction bs generalizing pos with
  | nil => exact h
  | cons b bs ih =>
    rw [← ih h.2, List.getLast?_cons]
    cases bs.getLast? <;> rfl

section Progress

variable (hnext : ∀ pos b, read pos = some b → pos < stop b)

include hnext

theorem Tiled.le (h : Tiled read stop pos bs last) : pos ≤ last := by
  induction bs generalizing pos with
  | nil => exact Int.le_of_eq h
  | cons b bs ih => exact Int.le_trans (Int.le_of_lt (hnext pos b h.1)) (ih h.2)

theorem Tiled.congr (h : Tiled read stop pos bs last)
    (hsame : ∀ p b, read p = some b → stop b ≤ last → read' p = some b) :
    Tiled read' stop pos bs last := by
  induction bs generalizing pos with
  | nil => exact h
  | cons b bs ih => exact ⟨hsame pos b h.1 (h.2.le hnext), ih h.2⟩

theorem segmentsFrom_fuel (hheader : 0 < header) (hm : (limit - pos).toNat ≤ m)
    (hn : (limit - pos).toNat ≤ n) :
    segmentsFrom read stop header limit m pos = segmentsFrom read stop header limit n pos := by
  induction m generalizing n pos with
  | zero =>
    cases n with
    | zero => rfl
    | succ n => rw [segmentsFrom, segmentsFrom, if_neg (by omega)]
  | succ m ih =>
    cases n with
    | zero => rw [segmentsFrom, segmentsFrom, if_neg (by omega)]
    | succ n =>
      rw [segmentsFrom, segmentsFrom]
      split
      · cases hr : read pos with
        | none => rfl
        | some b =>
          have hlt := hnext pos b hr
          dsimp only
          rw [ih (by omega) (by omega : (limit - stop b).toNat ≤ n)]
      · rfl

theorem segments_eq (hheader : 0 < header) (pos : ℤ) :
    segments read stop header limit pos =
      if pos + header ≤ limit then
        match read pos with
        | none => ([], false)
        | some b => (b :: (segments read stop header limit (stop b)).1,
            (segments read stop header limit (stop b)).2)
      else ([], true) := by
  unfold segments
  rw [segmentsFrom_fuel hnext hheader (Nat.le_refl _) (Nat.le_succ _), segmentsFrom]
  split
  · cases hr : read pos with
    | none => rfl
    | some b =>
      have hlt := hnext pos b hr
      dsimp only
      rw [segmentsFrom_fuel hnext hheader (by omega) (Nat.le_refl _)]
  · rfl

/-- Every item makes progress, and so the loop ends. -/
theorem segments_ends (hheader : 0 < header) (pos : ℤ) :
    Ends read stop header limit pos (segments read stop header limit pos) := by
  generalize hn : (limit - pos).toNat = n
  induction n using Nat.strongRecOn generalizing pos with
  | ind n ih =>
    rw [segments_eq hnext hheader]
    split
    next hfits =>
      cases hr : read pos with
      | none => exact .failed hfits hr
      | some b =>
        have hlt := hnext pos b hr
        exact .next hfits hr (ih _ (by omega) (stop b) rfl)
    next hdone => exact .done hdone

theorem segments_of_tiled (hheader : 0 < header)
    (hfit : ∀ pos b, read pos = some b → pos + header ≤ limit) (h : Tiled read stop pos bs last) :
    segments read stop header limit pos = (bs ++ (segments read stop header limit last).1,
      (segments read stop header limit last).2) := by
  induction bs generalizing pos with
  | nil => rw [show pos = last from h]; rfl
  | cons b bs ih =>
    rw [segments_eq hnext hheader, if_pos (hfit pos b h.1), h.1]
    dsimp only
    rw [ih h.2]
    rfl

theorem tiled_of_segments (hheader : 0 < header)
    (h : segments read stop header limit pos = (bs ++ cs, ok)) :
    ∃ last, Tiled read stop pos bs last ∧ segments read stop header limit last = (cs, ok) := by
  induction bs generalizing pos with
  | nil => exact ⟨pos, rfl, h⟩
  | cons b bs ih =>
    rw [segments_eq hnext hheader] at h
    split at h
    · cases hr : read pos with
      | none => simp [hr] at h
      | some c =>
        rw [hr] at h
        simp only [List.cons_append, Prod.mk.injEq, List.cons.injEq] at h
        obtain ⟨⟨rfl, hbs⟩, hok⟩ := h
        obtain ⟨last, ht, hlast⟩ := ih (Prod.ext hbs hok)
        exact ⟨last, ⟨hr, ht⟩, hlast⟩
    · simp at h

theorem read_of_segments (hheader : 0 < header)
    (h : segments read stop header limit pos = (bs ++ b :: cs, ok)) :
    ∃ last, Tiled read stop pos bs last ∧ read last = some b ∧
      segments read stop header limit (stop b) = (cs, ok) := by
  obtain ⟨last, ht, hrest⟩ := tiled_of_segments hnext hheader h
  rw [segments_eq hnext hheader] at hrest
  split at hrest
  · cases hr : read last with
    | none => simp [hr] at hrest
    | some c =>
      simp only [hr, Prod.mk.injEq, List.cons.injEq] at hrest
      obtain ⟨⟨rfl, hcs⟩, hok⟩ := hrest
      exact ⟨last, ht, hr, Prod.ext hcs hok⟩
  · simp at hrest

theorem segmentsFrom_congr (hsame : ∀ p, pos ≤ p → read p = read' p) :
    segmentsFrom read stop header limit n pos = segmentsFrom read' stop header limit n pos := by
  induction n generalizing pos with
  | zero => rfl
  | succ n ih =>
    rw [segmentsFrom, segmentsFrom, ← hsame pos (Int.le_refl pos)]
    split
    · cases hr : read pos with
      | none => rfl
      | some b =>
        have hlt := hnext pos b hr
        dsimp only
        rw [ih fun p hp ↦ hsame p (by omega)]
    · rfl

theorem segments_congr (hsame : ∀ p, pos ≤ p → read p = read' p) :
    segments read stop header limit pos = segments read' stop header limit pos :=
  segmentsFrom_congr hnext hsame

end Progress

end Lib
