import Mathlib.Data.List.Basic
import Mathlib.Logic.Function.Basic

namespace Lib

/-- Who is to free a block: its owner, the caller that lends it, or nobody any more. -/
inductive Holder (ι : Type)
  | gone
  | caller
  | owner (i : ι)
  deriving DecidableEq

/-- The kind says how a block was obtained, and so how it is freed. -/
structure Block (κ ι : Type) where
  capacity : ℕ
  kind : κ
  holder : Holder ι

inductive Fault
  | outside (extent capacity : ℕ)
  | freed (b : ℕ)
  deriving DecidableEq

/-- Memory as blocks, numbered as they come, and what went wrong with them. -/
structure Memory (κ ι : Type) where
  block : ℕ → Block κ ι
  next : ℕ
  faults : List Fault

namespace Memory

variable {κ ι : Type}

def holder (m : Memory κ ι) (b : ℕ) : Holder ι := (m.block b).holder

def kind (m : Memory κ ι) (b : ℕ) : κ := (m.block b).kind

/-- How much there is behind a pointer. -/
def capacity (m : Memory κ ι) : Option ℕ → ℕ
  | none => 0
  | some b => (m.block b).capacity

/-- A new block, of the number `next`. -/
def add (m : Memory κ ι) (blk : Block κ ι) : Memory κ ι :=
  { m with block := Function.update m.block m.next blk, next := m.next + 1 }

/-- The caller hands a block over. -/
def give (m : Memory κ ι) (i : ι) (b : ℕ) : Memory κ ι :=
  { m with block := Function.update m.block b { m.block b with holder := .owner i } }

/-- An access to the first bytes behind a pointer. -/
def touch (m : Memory κ ι) (p : Option ℕ) (extent : ℕ) : Memory κ ι :=
  if extent ≤ m.capacity p then m
  else { m with faults := .outside extent (m.capacity p) :: m.faults }

section Free

variable [DecidableEq κ] [DecidableEq ι]

/-- An owner frees a block: it has to be its own, and of that kind. -/
def free (m : Memory κ ι) (i : ι) (k : κ) (b : ℕ) : Memory κ ι :=
  if m.holder b = .owner i ∧ m.kind b = k then
    { m with block := Function.update m.block b ⟨0, k, .gone⟩ }
  else { m with faults := .freed b :: m.faults }

end Free

structure Sound (m : Memory κ ι) : Prop where
  faults : m.faults = []
  fresh : ∀ b, m.next ≤ b → m.holder b = .gone

/-- The blocks of an owner are these. -/
structure Holds (m : Memory κ ι) (i : ι) (bs : List ℕ) : Prop where
  nodup : bs.Nodup
  mem : ∀ b, m.holder b = .owner i ↔ b ∈ bs

/-- Only an owner's blocks change, those that are not there, and the one that it is given; and
they become its own or go. -/
def Keeps (i : ι) (given : Option ℕ) (m m' : Memory κ ι) : Prop :=
  ∀ b, m'.block b = m.block b ∨
    (m.holder b = .gone ∨ m.holder b = .owner i ∨ given = some b) ∧
      (m'.holder b = .gone ∨ m'.holder b = .owner i)

variable {m m' m'' : Memory κ ι} {i : ι} {b n : ℕ} {bs bs' : List ℕ} {k : κ} {p given : Option ℕ}
  {blk : Block κ ι}

theorem Keeps.refl (i : ι) (given : Option ℕ) (m : Memory κ ι) : Keeps i given m m :=
  fun _ ↦ .inl rfl

theorem Keeps.trans (h : Keeps i given m m') (h' : Keeps i given m' m'') :
    Keeps i given m m'' := by
  intro b
  rcases h' b with hsame | ⟨hfrom, hto⟩
  · rcases h b with hsame₀ | ⟨hfrom, hto⟩
    · exact .inl (hsame.trans hsame₀)
    · have hholder : m''.holder b = m'.holder b := congrArg Block.holder hsame
      exact .inr ⟨hfrom, by rwa [hholder]⟩
  · rcases h b with hsame₀ | ⟨hfrom₀, -⟩
    · have hholder : m'.holder b = m.holder b := congrArg Block.holder hsame₀
      exact .inr ⟨by rwa [hholder] at hfrom, hto⟩
    · exact .inr ⟨hfrom₀, hto⟩

theorem Keeps.mono (h : Keeps i none m m') : Keeps i given m m' := by
  intro b
  rcases h b with hsame | ⟨hgone | howner | hgiven, hto⟩
  · exact .inl hsame
  · exact .inr ⟨.inl hgone, hto⟩
  · exact .inr ⟨.inr (.inl howner), hto⟩
  · contradiction

/-- What somebody else has stays as it is. -/
theorem Keeps.block (h : Keeps i given m m') (hgone : m.holder b ≠ .gone)
    (howner : m.holder b ≠ .owner i) (hgiven : given ≠ some b) : m'.block b = m.block b := by
  rcases h b with hsame | ⟨hfrom | hfrom | hfrom, -⟩
  · exact hsame
  · contradiction
  · contradiction
  · contradiction

theorem touch_eq (h : n ≤ m.capacity p) : m.touch p n = m := if_pos h

theorem block_add : (m.add blk).block b = if b = m.next then blk else m.block b :=
  Function.update_apply _ _ _ _

theorem block_give : (m.give i b).block n =
    if n = b then { m.block b with holder := .owner i } else m.block n :=
  Function.update_apply _ _ _ _

theorem holder_add : (m.add blk).holder b = if b = m.next then blk.holder else m.holder b := by
  rw [holder, block_add]
  split
  · rfl
  · rfl

theorem kind_add : (m.add blk).kind b = if b = m.next then blk.kind else m.kind b := by
  rw [kind, block_add]
  split
  · rfl
  · rfl

theorem capacity_add_next : (m.add blk).capacity (some m.next) = blk.capacity := by
  rw [capacity, block_add, if_pos rfl]

theorem capacity_add (h : p ≠ some m.next) : (m.add blk).capacity p = m.capacity p := by
  cases p with
  | none => rfl
  | some b =>
    have hne : b ≠ m.next := fun heq ↦ h (congrArg some heq)
    rw [capacity, capacity, block_add, if_neg hne]

theorem capacity_congr (h : ∀ b, p = some b → m'.block b = m.block b) :
    m'.capacity p = m.capacity p := by
  cases p with
  | none => rfl
  | some b => rw [capacity, capacity, h b rfl]

theorem capacity_give : (m.give i b).capacity p = m.capacity p := by
  cases p with
  | none => rfl
  | some n =>
    rw [capacity, capacity, block_give]
    split
    · next heq => rw [heq]
    · rfl

theorem kind_give : (m.give i b).kind n = m.kind n := by
  rw [kind, block_give]
  split
  · next heq => rw [heq, kind]
  · rfl

theorem holder_give : (m.give i b).holder n = if n = b then .owner i else m.holder n := by
  rw [holder, block_give]
  split
  · rfl
  · rfl

namespace Sound

theorem ne_next (h : m.Sound) (hb : m.holder b ≠ .gone) : b ≠ m.next := by
  intro heq
  exact hb (h.fresh b (Nat.le_of_eq heq.symm))

theorem add (h : m.Sound) (blk : Block κ ι) : (m.add blk).Sound where
  faults := h.faults
  fresh b hb := by
    have hb : m.next + 1 ≤ b := hb
    rw [holder_add, if_neg (by omega)]
    exact h.fresh b (by omega)

theorem keeps_add (h : m.Sound) (i : ι) (n : ℕ) (k : κ) :
    Keeps i none m (m.add ⟨n, k, .owner i⟩) := by
  intro b
  by_cases hb : b = m.next
  · refine .inr ⟨.inl (h.fresh b (Nat.le_of_eq hb.symm)), .inr ?_⟩
    rw [holder_add, if_pos hb]
  · exact .inl (by rw [block_add, if_neg hb])

theorem give (h : m.Sound) (hb : m.holder b ≠ .gone) (i : ι) : (m.give i b).Sound where
  faults := h.faults
  fresh c hc := by
    have hc : m.next ≤ c := hc
    have hne : c ≠ b := by
      intro heq
      exact hb (h.fresh b (heq ▸ hc))
    rw [holder_give, if_neg hne]
    exact h.fresh c hc

end Sound

theorem keeps_give : Keeps i (some b) m (m.give i b) := by
  intro c
  by_cases hc : c = b
  · refine .inr ⟨.inr (.inr (congrArg some hc.symm)), .inr ?_⟩
    rw [holder_give, if_pos hc]
  · exact .inl (by rw [block_give, if_neg hc])

namespace Holds

theorem perm (h : m.Holds i bs) (hbs : bs.Perm bs') : m.Holds i bs' :=
  ⟨hbs.nodup_iff.mp h.nodup, fun b ↦ (h.mem b).trans hbs.mem_iff⟩

theorem add (h : m.Holds i bs) (hm : m.Sound) (n : ℕ) (k : κ) :
    (m.add ⟨n, k, .owner i⟩).Holds i (m.next :: bs) where
  nodup := by
    refine List.nodup_cons.mpr ⟨?_, h.nodup⟩
    intro hmem
    have howner := (h.mem m.next).mpr hmem
    rw [hm.fresh m.next (Nat.le_refl _)] at howner
    contradiction
  mem b := by
    rw [holder_add, List.mem_cons, ← h.mem b]
    by_cases hb : b = m.next
    · simp [hb]
    · simp [hb]

/-- A block of somebody else changes nothing. -/
theorem add_other (h : m.Holds i bs) (hm : m.Sound) (hblk : blk.holder ≠ .owner i) :
    (m.add blk).Holds i bs where
  nodup := h.nodup
  mem b := by
    rw [holder_add]
    split_ifs with hb
    · refine iff_of_false hblk ?_
      rw [← h.mem b, hb, hm.fresh m.next (Nat.le_refl _)]
      exact fun h ↦ by (cases h)
    · exact h.mem b

theorem give (h : m.Holds i bs) (hb : m.holder b = .caller) : (m.give i b).Holds i (b :: bs) where
  nodup := by
    refine List.nodup_cons.mpr ⟨?_, h.nodup⟩
    intro hmem
    have howner := (h.mem b).mpr hmem
    rw [hb] at howner
    contradiction
  mem c := by
    rw [holder_give, List.mem_cons, ← h.mem c]
    by_cases hc : c = b
    · simp [hc]
    · simp [hc]

/-- The blocks of another owner stay its own. -/
theorem of_keeps {j : ι} (h : m.Holds j bs) (hm : Keeps i given m m') (hij : j ≠ i)
    (hgiven : ∀ b, given = some b → m.holder b = .caller) : m'.Holds j bs where
  nodup := h.nodup
  mem b := by
    rcases hm b with hsame | ⟨hfrom, hto⟩
    · rw [holder, hsame]
      exact h.mem b
    · have hne : m.holder b ≠ .owner j := by
        rcases hfrom with hfrom | hfrom | hfrom
        · simp [hfrom]
        · simp [hfrom, hij.symm]
        · simp [hgiven b hfrom]
      have hne' : m'.holder b ≠ .owner j := by
        rcases hto with hto | hto
        · simp [hto]
        · simp [hto, hij.symm]
      exact iff_of_false hne' (fun hmem ↦ hne ((h.mem b).mpr hmem))

end Holds

section Free

variable [DecidableEq κ] [DecidableEq ι]

theorem free_eq (hb : m.holder b = .owner i) (hk : m.kind b = k) :
    m.free i k b = { m with block := Function.update m.block b ⟨0, k, .gone⟩ } :=
  if_pos ⟨hb, hk⟩

theorem block_free (hb : m.holder b = .owner i) (hk : m.kind b = k) :
    (m.free i k b).block n = if n = b then ⟨0, k, .gone⟩ else m.block n := by
  rw [free_eq hb hk]
  exact Function.update_apply _ _ _ _

theorem holder_free (hb : m.holder b = .owner i) (hk : m.kind b = k) :
    (m.free i k b).holder n = if n = b then .gone else m.holder n := by
  rw [holder, block_free hb hk]
  split
  · rfl
  · rfl

theorem keeps_free (hb : m.holder b = .owner i) (hk : m.kind b = k) :
    Keeps i none m (m.free i k b) := by
  intro c
  by_cases hc : c = b
  · refine .inr ⟨.inr (.inl (hc ▸ hb)), .inl ?_⟩
    rw [holder_free hb hk, if_pos hc]
  · exact .inl (by rw [block_free hb hk, if_neg hc])

theorem Sound.free (h : m.Sound) (hb : m.holder b = .owner i) (hk : m.kind b = k) :
    (m.free i k b).Sound where
  faults := by
    rw [free_eq hb hk]
    exact h.faults
  fresh c hc := by
    rw [holder_free hb hk]
    split
    · rfl
    · refine h.fresh c ?_
      rw [free_eq hb hk] at hc
      exact hc

/-- What is freed is gone, and nothing else. -/
theorem Holds.free (h : m.Holds i (b :: bs)) (hk : m.kind b = k) : (m.free i k b).Holds i bs := by
  have hb := (h.mem b).mpr List.mem_cons_self
  obtain ⟨hnot, hnodup⟩ := List.nodup_cons.mp h.nodup
  refine ⟨hnodup, ?_⟩
  intro c
  rw [holder_free hb hk]
  split_ifs with hc
  · rw [hc]
    exact iff_of_false (fun h ↦ by (cases h)) hnot
  · refine (h.mem c).trans ?_
    rw [List.mem_cons, or_iff_right hc]

end Free

end Memory

end Lib
