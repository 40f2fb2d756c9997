import Mathlib.Data.List.Induction

namespace Lib

/-- A signal that an event raises and that is held for a window of steps after the last event. The
count of what is left of the window is set when a step has no event and the one before had. -/
structure Hold where
  fired : Bool := false
  held : Bool := false
  count : ℕ := 0

namespace Hold

def step (window : ℕ) (h : Hold) (event : Bool) : Hold :=
  if event then { h with fired := true, held := true }
  else if h.held then
    let count := if h.fired then window else h.count
    { fired := false, held := decide (count ≠ 0), count := count - 1 }
  else { h with fired := false }

/-- The state after some events, of which the latest is the first of the list. -/
structure Follows (window : ℕ) (recent : List Bool) (h : Hold) : Prop where
  fired : h.fired = true ↔ recent.findIdx? id = some 0
  held : h.held = true ↔ ∃ g ≤ window, recent.findIdx? id = some g
  count : ∀ g, 0 < g → g ≤ window → recent.findIdx? id = some g → h.count = window - g

variable {window : ℕ} {recent : List Bool} {h : Hold}

theorem follows_nil : Follows window [] {} where
  fired := by simp
  held := by simp
  count := by simp

theorem findIdx?_true : (true :: recent).findIdx? id = some 0 := by
  rw [List.findIdx?_cons]
  rfl

theorem findIdx?_false : (false :: recent).findIdx? id = (recent.findIdx? id).map (· + 1) := by
  rw [List.findIdx?_cons]
  rfl

theorem follows_event : Follows window (true :: recent) (h.step window true) := by
  refine ⟨iff_of_true rfl findIdx?_true, iff_of_true rfl ⟨0, Nat.zero_le _, findIdx?_true⟩, ?_⟩
  intro g hg _ hsome
  rw [findIdx?_true] at hsome
  have hzero := Option.some.inj hsome
  omega

theorem Follows.quiet (hf : Follows window recent h) :
    Follows window (false :: recent) (h.step window false) := by
  rw [step, if_neg Bool.false_ne_true]
  cases hheld : h.held with
  | false =>
    have hnone : ¬ ∃ g ≤ window, recent.findIdx? id = some g := by
      rw [← hf.held, hheld]
      exact Bool.false_ne_true
    rw [if_neg Bool.false_ne_true]
    refine ⟨?_, ?_, ?_⟩
    · rw [findIdx?_false]
      simp
    · rw [findIdx?_false]
      refine iff_of_false (by simp) ?_
      rintro ⟨g, hg, hmap⟩
      obtain ⟨g', hg', rfl⟩ := Option.map_eq_some_iff.mp hmap
      exact hnone ⟨g', by omega, hg'⟩
    · rw [findIdx?_false]
      intro g _ hg hmap
      obtain ⟨g', hg', rfl⟩ := Option.map_eq_some_iff.mp hmap
      exact absurd ⟨g', by omega, hg'⟩ hnone
  | true =>
    obtain ⟨g, hg, hsome⟩ := hf.held.mp hheld
    have hcount : (if h.fired then window else h.count) = window - g := by
      split
      · next hfired =>
        have hzero := hf.fired.mp hfired
        rw [hsome] at hzero
        have := Option.some.inj hzero
        omega
      · next hfired =>
        refine hf.count g ?_ hg hsome
        by_contra hzero
        rw [Nat.eq_zero_of_not_pos hzero] at hsome
        exact hfired (hf.fired.mpr hsome)
    rw [if_pos rfl, hcount]
    refine ⟨?_, ?_, ?_⟩
    · rw [findIdx?_false]
      simp
    · rw [findIdx?_false, hsome]
      simp only [Option.map_some, Option.some.injEq, decide_eq_true_eq]
      constructor
      · intro hne
        exact ⟨g + 1, by omega, rfl⟩
      · rintro ⟨g', hg', rfl⟩
        omega
    · rw [findIdx?_false, hsome]
      intro g' _ hg' hmap
      obtain rfl := Option.some.inj hmap
      dsimp only
      omega

theorem follows_foldl (window : ℕ) (events : List Bool) :
    Follows window events.reverse (events.foldl (step window) {}) := by
  induction events using List.reverseRecOn with
  | nil => exact follows_nil
  | append_singleton events event ih =>
    rw [List.foldl_append, List.foldl_cons, List.foldl_nil, List.reverse_append]
    cases event with
    | false => exact ih.quiet
    | true => exact follows_event

theorem exists_findIdx?_iff (n : ℕ) (l : List Bool) :
    (∃ g ≤ n, l.findIdx? id = some g) ↔ ∃ i ≤ n, l[i]? = some true := by
  constructor
  · rintro ⟨g, hg, hsome⟩
    obtain ⟨hlt, htrue, -⟩ := List.findIdx?_eq_some_iff_getElem.mp hsome
    exact ⟨g, hg, by rw [List.getElem?_eq_getElem hlt]; exact congrArg some htrue⟩
  · rintro ⟨i, hi, htrue⟩
    obtain ⟨hlt, htrue⟩ := List.getElem?_eq_some_iff.mp htrue
    refine ⟨l.findIdx id, ?_, List.findIdx?_eq_some_of_exists ⟨l[i], List.getElem_mem hlt, htrue⟩⟩
    by_contra hlate
    have hfalse := List.not_of_lt_findIdx (show i < l.findIdx id by omega)
    rw [htrue] at hfalse
    exact Bool.false_ne_true hfalse.symm

/-- The signal is held in a step if one of the steps of the window that ends with it has an
event. -/
theorem held_foldl (window : ℕ) (events : List Bool) :
    (events.foldl (step window) {}).held = true ↔
      ∃ k, events[k]? = some true ∧ events.length ≤ k + window + 1 := by
  rw [(follows_foldl window events).held, exists_findIdx?_iff]
  constructor
  · rintro ⟨i, hi, htrue⟩
    obtain ⟨hlt, -⟩ := List.getElem?_eq_some_iff.mp htrue
    rw [List.length_reverse] at hlt
    rw [List.getElem?_reverse hlt] at htrue
    exact ⟨_, htrue, by omega⟩
  · rintro ⟨k, htrue, hlength⟩
    obtain ⟨hlt, -⟩ := List.getElem?_eq_some_iff.mp htrue
    refine ⟨events.length - 1 - k, by omega, ?_⟩
    rw [List.getElem?_reverse (by omega)]
    have hk : events.length - 1 - (events.length - 1 - k) = k := by omega
    rw [hk, htrue]

end Hold

end Lib
