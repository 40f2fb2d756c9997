import Mathlib.Data.List.Basic
import Mathlib.Data.List.Infix

namespace Lib

section

variable {α : Type*} {P Q : List α → α → Prop} {l : List α} {a : α}

/-- Each element of a sequence holds to `P` with those before it. -/
def Along (P : List α → α → Prop) (l : List α) : Prop :=
  ∀ before a, before ++ [a] <+: l → P before a

theorem along_nil : Along P [] := by
  intro before a hbefore
  exact absurd (List.prefix_nil.mp hbefore) (List.append_ne_nil_of_right_ne_nil _ nofun)

theorem along_concat : Along P (l ++ [a]) ↔ Along P l ∧ P l a := by
  constructor
  · intro h
    refine ⟨fun before b hbefore ↦ h before b (hbefore.trans (List.prefix_append _ _)), ?_⟩
    exact h l a (List.prefix_refl _)
  · rintro ⟨h, ha⟩ before b hbefore
    rcases List.prefix_concat_iff.mp hbefore with heq | hshort
    · obtain ⟨rfl, hb⟩ := List.append_inj' heq rfl
      obtain rfl := List.singleton_inj.mp hb
      exact ha
    · exact h before b hshort

theorem along_iff_getElem : Along P l ↔ ∀ i : Fin l.length, P (l.take i) l[i] := by
  constructor
  · intro h i
    apply h
    rw [Fin.getElem_fin, List.take_append_getElem]
    exact List.take_prefix _ _
  · rintro h before a ⟨after, rfl⟩
    have hi := h ⟨before.length, by simp⟩
    simpa using hi

instance [∀ l a, Decidable (P l a)] (l : List α) : Decidable (Along P l) :=
  decidable_of_iff' _ along_iff_getElem

theorem Along.of_prefix {before : List α} (h : Along P l) (hbefore : before <+: l) :
    Along P before := fun b a hb ↦ h b a (hb.trans hbefore)

end

variable {σ α : Type}

/-- Runs of a partial step function, labelled by the operations performed.
`P` is a promise kept before every step of the run. -/
inductive Run (step : σ → α → Option σ) (P : σ → α → Prop) : σ → List α → σ → Prop
  | nil (s : σ) : Run step P s [] s
  | cons {s t u : σ} {a : α} {as : List α} :
      P s a → step s a = some t → Run step P t as u → Run step P s (a :: as) u

namespace Run

variable {step : σ → α → Option σ} {P Q : σ → α → Prop} {s t u : σ} {a : α} {as bs : List α}

theorem one (hp : P s a) (h : step s a = some t) : Run step P s [a] t := .cons hp h (.nil t)

theorem trans (h : Run step P s as t) (h' : Run step P t bs u) : Run step P s (as ++ bs) u := by
  induction h with
  | nil => exact h'
  | cons hp hs h ih => exact .cons hp hs (ih h')

theorem mono (hPQ : ∀ s a, P s a → Q s a) (h : Run step P s as t) : Run step Q s as t := by
  induction h with
  | nil s => exact .nil s
  | cons hp hs h ih => exact .cons (hPQ _ _ hp) hs ih

/-- The induction rule: what every promised step preserves holds at the end of a run. -/
theorem invariant {I : σ → Prop} (h : Run step P s as t)
    (hstep : ∀ s a t, I s → P s a → step s a = some t → I t) (hs : I s) : I t := by
  induction h with
  | nil => exact hs
  | cons hp ht h ih => exact ih (hstep _ _ _ hs hp ht)

/-- The same with the operations performed so far at hand. -/
theorem invariant_along {I : List α → σ → Prop} (h : Run step P s as t)
    (hstep : ∀ before s a t, I before s → P s a → step s a = some t → I (before ++ [a]) t)
    (hs : I [] s) : I as t := by
  have hrun : ∀ before, I before s → I (before ++ as) t := by
    clear hs
    induction h with
    | nil s =>
      intro before hs
      rwa [List.append_nil]
    | @cons s t u a as hp ht h ih =>
      intro before hs
      have hnext := ih (before ++ [a]) (hstep before s a t hs hp ht)
      rwa [List.append_assoc] at hnext
  exact hrun [] hs

theorem of_foldlM [∀ s a, Decidable (P s a)]
    (h : as.foldlM (fun s a ↦ if P s a then step s a else none) s = some t) :
    Run step P s as t := by
  induction as generalizing s with
  | nil =>
    obtain rfl : s = t := by simpa using h
    exact .nil s
  | cons a as ih =>
    rw [List.foldlM_cons] at h
    obtain ⟨s', hs', h⟩ := Option.bind_eq_some_iff.mp h
    by_cases hp : P s a
    · exact .cons hp (by simpa only [hp, if_true] using hs') (ih h)
    · simp only [hp, if_false, reduceCtorEq] at hs'

theorem exists_of_any (step : σ → α → Option σ) (P : σ → α → Prop)
    [∀ s a, Decidable (P s a)] (s : σ) (as : List α) (q : σ → Bool)
    (h : (as.foldlM (fun s a ↦ if P s a then step s a else none) s).any q = true) :
    ∃ t, Run step P s as t ∧ q t = true := by
  obtain ⟨t, ht, hq⟩ := (Option.any_eq_true _ _).mp h
  exact ⟨t, of_foldlM ht, hq⟩

end Run

/-- The states a machine can reach when nothing is promised about its steps. -/
def Reachable (step : σ → α → Option σ) (init : σ) (s : σ) : Prop :=
  ∃ as, Run step (fun _ _ ↦ True) init as s

end Lib
