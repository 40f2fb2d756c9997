import Mathlib.Data.List.Basic

namespace Lib

/-- The states a computation passes through, the last state, and the value. -/
structure Trace (σ α : Type) where
  passed : List σ
  last : σ
  value : α

/-- A computation of which every state can be seen, so that it can be cut off after any step. -/
def Prog (σ α : Type) : Type := σ → Trace σ α

namespace Prog

variable {σ α β : Type}

instance : Monad (Prog σ) where
  pure a s := ⟨[], s, a⟩
  bind m f s := ⟨(m s).passed ++ (f (m s).value (m s).last).passed,
    (f (m s).value (m s).last).last, (f (m s).value (m s).last).value⟩

def get : Prog σ σ := fun s ↦ ⟨[], s, s⟩

/-- One step that nothing comes between. -/
def step (g : σ → σ) : Prog σ Unit := fun s ↦ ⟨[g s], g s, ()⟩

/-- A list of steps of which the first that fails is the last. -/
def walk (f : β → Prog σ (Option α)) : List β → Prog σ (Option α)
  | [] => pure none
  | b :: bs => f b >>= fun r ↦ r.elim (walk f bs) fun a ↦ pure (some a)

end Prog

/-- From a state with `P` the computation passes through states with `I` only, and it ends with
`Q`. -/
def Keeps {σ α : Type} (I P : σ → Prop) (m : Prog σ α) (Q : α → σ → Prop) : Prop :=
  ∀ s, P s → (∀ t ∈ (m s).passed, I t) ∧ Q (m s).value (m s).last

namespace Keeps

variable {σ α β : Type} {I P P' : σ → Prop} {m : Prog σ α} {Q Q' : α → σ → Prop}

theorem mono (h : Keeps I P m Q) (hP : ∀ s, P' s → P s) (hQ : ∀ a s, Q a s → Q' a s) :
    Keeps I P' m Q' :=
  fun s hs ↦ ⟨(h s (hP s hs)).1, hQ _ _ (h s (hP s hs)).2⟩

theorem pure {a : α} (h : ∀ s, P s → Q a s) : Keeps I P (Pure.pure a) Q := by
  intro s hs
  refine ⟨?_, h s hs⟩
  intro t ht
  cases ht

theorem bind {R : α → σ → Prop} {Q : β → σ → Prop} {f : α → Prog σ β} (hm : Keeps I P m R)
    (hf : ∀ a, Keeps I (R a) (f a) Q) : Keeps I P (m >>= f) Q := by
  intro s hs
  obtain ⟨hpassed, hlast⟩ := hm s hs
  obtain ⟨hpassed', hlast'⟩ := hf _ _ hlast
  refine ⟨?_, hlast'⟩
  intro t ht
  rcases List.mem_append.mp ht with ht | ht
  · exact hpassed t ht
  · exact hpassed' t ht

theorem ite {c : Prop} [Decidable c] {m' : Prog σ α} (h : c → Keeps I P m Q)
    (h' : ¬c → Keeps I P m' Q) : Keeps I P (if c then m else m') Q := by
  split_ifs with hc
  · exact h hc
  · exact h' hc

/-- Reading the state fixes it. -/
theorem get {f : σ → Prog σ α} (h : ∀ w, P w → Keeps I (· = w) (f w) Q) :
    Keeps I P (Prog.get >>= f) Q :=
  fun s hs ↦ h s hs s rfl

theorem step {g : σ → σ} {Q : Unit → σ → Prop} (h : ∀ s, P s → I (g s) ∧ Q () (g s)) :
    Keeps I P (Prog.step g) Q := by
  intro s hs
  refine ⟨?_, (h s hs).2⟩
  intro t ht
  rw [List.mem_singleton.mp ht]
  exact (h s hs).1

/-- The loop rule: `J` holds of the elements that have been worked off. -/
theorem walk {f : β → Prog σ (Option α)} {J : List β → σ → Prop} {Q : Option α → σ → Prop}
    {bs : List β} (hnil : ∀ s, P s → J [] s)
    (hstep : ∀ done b rest, bs = done ++ b :: rest →
      Keeps I (J done) (f b) fun r s ↦ r.elim (J (done ++ [b]) s) fun a ↦ Q (some a) s)
    (hdone : ∀ s, J bs s → Q none s) : Keeps I P (Prog.walk f bs) Q := by
  have hwalk : ∀ done rest, bs = done ++ rest → Keeps I (J done) (Prog.walk f rest) Q := by
    intro done rest
    induction rest generalizing done with
    | nil =>
      intro hbs
      apply Keeps.pure
      intro s hs
      rw [List.append_nil] at hbs
      exact hdone s (hbs ▸ hs)
    | cons b rest ih =>
      intro hbs
      apply Keeps.bind (hstep done b rest hbs)
      intro r
      cases r with
      | none => exact ih (done ++ [b]) (by rw [hbs]; simp)
      | some a => exact Keeps.pure fun s hs ↦ hs
  exact (hwalk [] bs rfl).mono hnil fun _ _ h ↦ h

end Keeps

end Lib
