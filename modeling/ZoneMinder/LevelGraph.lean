import Mathlib.Algebra.Order.Group.Abs
import Mathlib.Algebra.Order.Group.Basic
import Mathlib.Data.List.Basic
import Mathlib.Tactic.NormNum

namespace ZoneMinder.LevelGraph

inductive FrameType
  | normal | bulk | alarm
  deriving DecidableEq

structure Sample (K : Type) where
  t : K
  score : ℕ
  audio : ℕ
  type : FrameType
  deriving DecidableEq

structure Band (K : Type) where
  start : K
  stop : K
  deriving DecidableEq

section Source

variable {K : Type} [LinearOrder K]

/-- `>> 1`, of what a sum is as an int of 32 bits. -/
def halve (sum : ℕ) : ℤ := (sum : ℤ).bmod (2 ^ 32) / 2

/-- The loop of the search, in at most so many rounds; none where it is not over then, or where it
looks at a sample that there is not. -/
def search (samples : List (Sample K)) (t : K) : (fuel lo hi : ℕ) → Option ℕ
  | 0, _, _ => none
  | fuel + 1, lo, hi =>
    if lo < hi then
      let mid := halve (lo + hi)
      if mid < 0 then none
      else samples[mid.toNat]?.bind fun s ↦
        if s.t < t then search samples t fuel (mid.toNat + 1) hi
        else search samples t fuel lo mid.toNat
    else some lo

/-- The inner none is null. -/
def levelGraphSampleAt [AddCommGroup K] (samples : List (Sample K)) (t : K) (fuel : ℕ) :
    Option (Option (Sample K)) :=
  if samples.isEmpty then some none
  else do
    let lo ← search samples t fuel 0 (samples.length - 1)
    let after ← samples[lo]?
    if lo = 0 then some after
    else
      let before ← samples[lo - 1]?
      some (some (if |after.t - t| < |t - before.t| then after else before))

def pushBand (bands : List (Band K)) (start stop : K) : List (Band K) :=
  match bands.getLast? with
  | none => [⟨start, stop⟩]
  | some last =>
    if start ≤ last.stop then bands.dropLast ++ [{ last with stop := max last.stop stop }]
    else bands ++ [⟨start, stop⟩]

/-- How far a sample reaches that the others come after. -/
def reach (eventLength : K) : List (Sample K) → K
  | [] => eventLength
  | next :: _ => next.t

theorem reach_eq {K : Type} {samples : List (Sample K)} {eventLength : K} :
    reach eventLength samples = samples[0]?.elim eventLength Sample.t := by
  cases samples <;> rfl

def bandsFrom (eventLength : K) : List (Band K) → List (Sample K) → List (Band K)
  | bands, [] => bands
  | bands, s :: samples =>
    let stop := reach eventLength samples
    if s.type = .alarm ∧ s.t < stop then
      bandsFrom eventLength (pushBand bands s.t stop) samples
    else bandsFrom eventLength bands samples

def levelGraphBands (samples : List (Sample K)) (eventLength : K) : List (Band K) :=
  bandsFrom eventLength [] samples

/-- The sum of two places is an int of 32 bits. A `push` throws long before an array has more
samples than that. -/
def FitsArray (samples : List (Sample K)) : Prop := samples.length ≤ 2 ^ 30 + 1

/-- No sample is nearer; null where there is none. -/
def Nearest [AddCommGroup K] (samples : List (Sample K)) (t : K) : Option (Sample K) → Prop
  | none => samples = []
  | some s => s ∈ samples ∧ ∀ s' ∈ samples, |s.t - t| ≤ |s'.t - t|

/-- The times of an alarm sample are those until the next sample, or the end of the event. -/
def Alarmed (samples : List (Sample K)) (eventLength x : K) : Prop :=
  ∃ i s, samples[i]? = some s ∧ s.type = .alarm ∧ s.t ≤ x ∧
    x < samples[i + 1]?.elim eventLength Sample.t

def Covered (bands : List (Band K)) (x : K) : Prop := ∃ b ∈ bands, b.start ≤ x ∧ x < b.stop

/-- Bands that lie apart, in order, over such times. -/
structure Shades (bands : List (Band K)) (P : K → Prop) : Prop where
  nonempty : ∀ b ∈ bands, b.start < b.stop
  apart : bands.Pairwise fun a b ↦ a.stop < b.start
  covered : ∀ x, Covered bands x ↔ P x

end Source

section Search

variable {K : Type} [LinearOrder K] {samples : List (Sample K)} {t : K} {fuel lo hi : ℕ}

theorem halve_lt (sum : ℕ) : halve sum < 2 ^ 30 := by
  have h := Int.bmod_lt (x := sum) (m := 2 ^ 32) (Nat.two_pow_pos 32)
  unfold halve
  omega

theorem halve_eq (h : lo + hi < 2 ^ 31) : halve (lo + hi) = ((lo + hi) / 2 : ℕ) := by
  have hsum : ((lo + hi : ℕ) : ℤ).bmod (2 ^ 32) = (lo + hi : ℕ) :=
    Int.bmod_eq_of_le_mul_two (by omega) (by omega)
  unfold halve
  omega

/-- The samples before a place are earlier than `t`, and that at the place is not, unless it is the
last one. -/
structure Splits (samples : List (Sample K)) (t : K) (lo hi : ℕ) : Prop where
  lt : hi < samples.length
  before : ∀ i < lo, ∀ s ∈ samples[i]?, s.t < t
  after : hi + 1 = samples.length ∨ ∀ s ∈ samples[hi]?, t ≤ s.t

theorem exists_search (hsorted : samples.Pairwise (·.t ≤ ·.t))
    (hsmall : samples.length ≤ 2 ^ 30 + 1) (h : Splits samples t lo hi) (hle : lo ≤ hi)
    (hfuel : hi - lo < fuel) :
    ∃ m, search samples t fuel lo hi = some m ∧ Splits samples t m m := by
  induction fuel generalizing lo hi with
  | zero => exact absurd hfuel (Nat.not_lt_zero _)
  | succ fuel ih =>
    rw [search]
    have hlt := h.lt
    by_cases hlo : lo < hi
    · have hmid : (lo + hi) / 2 < samples.length := by omega
      rw [if_pos hlo, halve_eq (by omega)]
      simp only [Int.toNat_natCast, if_neg (Int.not_lt.mpr (Int.natCast_nonneg _)),
        List.getElem?_eq_getElem hmid, Option.bind_some]
      split_ifs with hs
      · refine ih ⟨hlt, fun i hi s hsi ↦ ?_, h.after⟩ (by omega) (by omega)
        obtain ⟨hlen, rfl⟩ := List.getElem?_eq_some_iff.mp hsi
        rcases Nat.lt_succ_iff_lt_or_eq.mp hi with hi | rfl
        · exact (List.pairwise_iff_getElem.mp hsorted i _ hlen hmid hi).trans_lt hs
        · exact hs
      · refine ih ⟨hmid, h.before, .inr fun s hsi ↦ ?_⟩ (by omega) (by omega)
        rw [List.getElem?_eq_getElem hmid] at hsi
        obtain rfl := Option.some.inj hsi
        exact not_lt.mp hs
    · obtain rfl : lo = hi := by omega
      exact ⟨lo, by rw [if_neg hlo], h⟩

/-- No place is reached that an int of 32 bits does not have the double of. -/
theorem search_eq_none (hall : ∀ s ∈ samples, s.t < t) (hlo : lo < hi) (hhi : 2 ^ 30 < hi) :
    search samples t fuel lo hi = none := by
  induction fuel generalizing lo with
  | zero => rfl
  | succ fuel ih =>
    rw [search, if_pos hlo]
    dsimp only
    split_ifs with hneg
    · rfl
    · have hmid := halve_lt (lo + hi)
      cases hs : samples[(halve (lo + hi)).toNat]? with
      | none => rfl
      | some s =>
        rw [Option.bind_some, if_pos (hall s (List.mem_of_getElem? hs))]
        exact ih (by omega)

/-- A search for a time after all samples of a longer list does not end. -/
theorem levelGraphSampleAt_eq_none [AddCommGroup K] (hall : ∀ s ∈ samples, s.t < t)
    (hlarge : 2 ^ 30 + 1 < samples.length) (fuel : ℕ) :
    levelGraphSampleAt samples t fuel = none := by
  have hempty : samples.isEmpty = false := by
    cases samples with
    | nil => exact absurd hlarge (Nat.not_lt_zero _)
    | cons s samples => rfl
  rw [levelGraphSampleAt, hempty, if_neg Bool.false_ne_true,
    search_eq_none hall (by omega) (by omega)]
  rfl

end Search

section Nearest

variable {K : Type} [AddCommGroup K] [LinearOrder K] [IsOrderedAddMonoid K]
  {samples : List (Sample K)} {t : K} {a b c : K}

theorem abs_sub_le_of_le (hab : a ≤ b) (hb : b ≤ t) : |b - t| ≤ |a - t| := by
  rw [abs_of_nonpos (sub_nonpos.mpr hb), abs_of_nonpos (sub_nonpos.mpr (hab.trans hb))]
  exact neg_le_neg_iff.mpr (sub_le_sub_right hab t)

theorem abs_sub_le_of_ge (ha : t ≤ a) (hab : a ≤ b) : |a - t| ≤ |b - t| := by
  rw [abs_of_nonneg (sub_nonneg.mpr ha), abs_of_nonneg (sub_nonneg.mpr (ha.trans hab))]
  exact sub_le_sub_right hab t

/-- Where the search ends, one of the two samples there is as near as any other. -/
theorem Splits.nearest {m : ℕ} (h : Splits samples t m m) (hsorted : samples.Pairwise (·.t ≤ ·.t))
    {s : Sample K} (hs : s ∈ samples) :
    (∀ after ∈ samples[m]?, |after.t - t| ≤ |s.t - t|) ∨
      0 < m ∧ ∀ before ∈ samples[m - 1]?, |t - before.t| ≤ |s.t - t| := by
  obtain ⟨i, hi, rfl⟩ := List.getElem_of_mem hs
  have hordered {j k : ℕ} (hj : j ≤ k) (hk : k < samples.length) :
      samples[j].t ≤ samples[k].t := by
    rcases hj.eq_or_lt with rfl | hj
    · exact le_rfl
    · exact List.pairwise_iff_getElem.mp hsorted j k _ hk hj
  by_cases him : i < m
  · refine .inr ⟨by omega, fun before hbefore ↦ ?_⟩
    obtain ⟨hlen, rfl⟩ := List.getElem?_eq_some_iff.mp hbefore
    rw [abs_sub_comm]
    exact abs_sub_le_of_le (hordered (by omega) hlen) (h.before (m - 1) (by omega) _ hbefore).le
  · refine .inl fun after hafter ↦ ?_
    obtain ⟨hlen, rfl⟩ := List.getElem?_eq_some_iff.mp hafter
    rcases h.after with hlast | hafter'
    · obtain rfl : i = m := by omega
      exact le_rfl
    · exact abs_sub_le_of_ge (hafter' _ hafter) (hordered (not_lt.mp him) hi)

theorem exists_levelGraphSampleAt (hsorted : samples.Pairwise (·.t ≤ ·.t))
    (hsmall : samples.length ≤ 2 ^ 30 + 1) (t : K) :
    ∃ fuel r, levelGraphSampleAt samples t fuel = some r ∧ Nearest samples t r := by
  by_cases hempty : samples = []
  · exact ⟨0, none, by rw [hempty]; rfl, hempty⟩
  · have hpos := List.length_pos_iff.mpr hempty
    have hwhole : Splits samples t 0 (samples.length - 1) :=
      ⟨by omega, fun i hi ↦ absurd hi (Nat.not_lt_zero i), .inl (by omega)⟩
    have hfuel : samples.length - 1 - 0 < samples.length := by omega
    obtain ⟨m, hm, hsplits⟩ := exists_search hsorted hsmall hwhole (Nat.zero_le _) hfuel
    have hlt := hsplits.lt
    have hafter := List.getElem?_eq_getElem hlt
    have hat : levelGraphSampleAt samples t samples.length =
        if m = 0 then some (some samples[m]) else samples[m - 1]?.bind fun before ↦
          some (some (if |samples[m].t - t| < |t - before.t| then samples[m] else before)) := by
      rw [levelGraphSampleAt, if_neg (by rwa [List.isEmpty_iff])]
      simp only [hm, hafter, Option.bind_eq_bind, Option.bind_some]
    by_cases hzero : m = 0
    · refine ⟨samples.length, some samples[m], hat.trans (if_pos hzero), List.getElem_mem _, ?_⟩
      intro s hs
      rcases hsplits.nearest hsorted hs with hnear | ⟨hpos, -⟩
      · exact hnear _ hafter
      · exact absurd hzero hpos.ne'
    · have hlen : m - 1 < samples.length := by omega
      have hbefore := List.getElem?_eq_getElem hlen
      rw [if_neg hzero, hbefore, Option.bind_some] at hat
      refine ⟨samples.length, _, hat, ?_, fun s hs ↦ ?_⟩
      · split_ifs
        · exact List.getElem_mem _
        · exact List.getElem_mem _
      · rw [abs_sub_comm t] at *
        rcases hsplits.nearest hsorted hs with hnear | ⟨-, hnear⟩
        · have hle := hnear _ hafter
          split_ifs with hlt
          · exact hle
          · exact (not_lt.mp hlt).trans hle
        · have hle := hnear _ hbefore
          rw [abs_sub_comm] at hle
          split_ifs with hlt
          · exact hlt.le.trans hle
          · exact hle

end Nearest

section Bands

variable {K : Type} [LinearOrder K] {samples : List (Sample K)} {bands : List (Band K)}
  {eventLength start stop x : K} {s : Sample K} {P Q : K → Prop}

theorem Shades.nil : Shades ([] : List (Band K)) fun _ ↦ False where
  nonempty _ hb := absurd hb List.not_mem_nil
  apart := .nil
  covered _ := ⟨fun ⟨_, hb, _⟩ ↦ List.not_mem_nil hb, False.elim⟩

theorem Shades.congr (h : Shades bands P) (hPQ : ∀ x, P x ↔ Q x) : Shades bands Q :=
  ⟨h.nonempty, h.apart, fun x ↦ (h.covered x).trans (hPQ x)⟩

theorem covered_append {others : List (Band K)} :
    Covered (bands ++ others) x ↔ Covered bands x ∨ Covered others x := by
  simp only [Covered, List.mem_append, or_and_right, exists_or]

theorem covered_singleton {b : Band K} : Covered [b] x ↔ b.start ≤ x ∧ x < b.stop := by
  simp only [Covered, List.mem_singleton, exists_eq_left]

/-- A band after the others, which may go on where the last one ends. -/
theorem Shades.push (h : Shades bands P) (hend : ∀ b ∈ bands, b.stop ≤ start)
    (hlt : start < stop) :
    Shades (pushBand bands start stop) fun x ↦ P x ∨ start ≤ x ∧ x < stop := by
  rw [pushBand]
  cases hlast : bands.getLast? with
  | none =>
    obtain rfl := List.getLast?_eq_none_iff.mp hlast
    refine ⟨?_, List.pairwise_singleton _ _, fun x ↦ ?_⟩
    · simpa using hlt
    · rw [covered_singleton, ← h.covered x]
      simp [Covered]
  | some last =>
    obtain ⟨front, rfl⟩ := List.getLast?_eq_some_iff.mp hlast
    have hmem : last ∈ front ++ [last] := by simp
    have hstop := hend last hmem
    have hstart := h.nonempty last hmem
    obtain ⟨hfront, -, hapart⟩ := List.pairwise_append.mp h.apart
    dsimp only
    split_ifs with hle
    · obtain rfl : last.stop = start := le_antisymm hstop hle
      rw [List.dropLast_concat, max_eq_right hlt.le]
      refine ⟨?_, ?_, fun x ↦ ?_⟩
      · intro b hb
        rcases List.mem_append.mp hb with hb | hb
        · exact h.nonempty b (List.mem_append_left _ hb)
        · rw [List.mem_singleton.mp hb]
          exact hstart.trans hlt
      · refine List.pairwise_append.mpr ⟨hfront, List.pairwise_singleton _ _, ?_⟩
        intro a ha b hb
        rw [List.mem_singleton.mp hb]
        exact hapart a ha last (List.mem_singleton_self _)
      · rw [← h.covered x, covered_append, covered_append, covered_singleton, covered_singleton,
          or_assoc]
        refine or_congr_right ⟨?_, ?_⟩
        · rintro ⟨hge, hx⟩
          exact (lt_or_ge x last.stop).imp (⟨hge, ·⟩) (⟨·, hx⟩)
        · rintro (⟨hge, hx⟩ | ⟨hge, hx⟩)
          · exact ⟨hge, hx.trans hlt⟩
          · exact ⟨hstart.le.trans hge, hx⟩
    · refine ⟨?_, ?_, fun x ↦ ?_⟩
      · intro b hb
        rcases List.mem_append.mp hb with hb | hb
        · exact h.nonempty b hb
        · rw [List.mem_singleton.mp hb]
          exact hlt
      · refine List.pairwise_append.mpr ⟨h.apart, List.pairwise_singleton _ _, ?_⟩
        intro a ha b hb
        rw [List.mem_singleton.mp hb]
        have hgap := not_le.mp hle
        rcases List.mem_append.mp ha with ha | ha
        · exact ((hapart a ha last (List.mem_singleton_self _)).trans hstart).trans hgap
        · rw [List.mem_singleton.mp ha]
          exact hgap
      · rw [covered_append, covered_singleton, h.covered x]

theorem pushBand_stop (hend : ∀ b ∈ bands, b.stop ≤ stop) :
    ∀ b ∈ pushBand bands start stop, b.stop ≤ stop := by
  intro b hb
  rw [pushBand] at hb
  cases hlast : bands.getLast? with
  | none =>
    rw [hlast, List.mem_singleton] at hb
    exact hb ▸ le_rfl
  | some last =>
    rw [hlast] at hb
    dsimp only at hb
    split_ifs at hb
    · rcases List.mem_append.mp hb with hb | hb
      · exact hend b (List.dropLast_subset _ hb)
      · rw [List.mem_singleton.mp hb]
        exact max_le (hend last (List.mem_of_getLast? hlast)) le_rfl
    · rcases List.mem_append.mp hb with hb | hb
      · exact hend b hb
      · rw [List.mem_singleton.mp hb]

theorem alarmed_cons : Alarmed (s :: samples) eventLength x ↔
    (s.type = .alarm ∧ s.t ≤ x ∧ x < reach eventLength samples) ∨
      Alarmed samples eventLength x := by
  constructor
  · rintro ⟨i, s', hs', halarm, hle, hlt⟩
    cases i with
    | zero =>
      obtain rfl : s = s' := Option.some.inj hs'
      exact .inl ⟨halarm, hle, by rwa [reach_eq]⟩
    | succ i => exact .inr ⟨i, s', hs', halarm, hle, hlt⟩
  · rintro (⟨halarm, hle, hlt⟩ | ⟨i, s', hs', halarm, hle, hlt⟩)
    · exact ⟨0, s, rfl, halarm, hle, by rwa [reach_eq] at hlt⟩
    · exact ⟨i + 1, s', hs', halarm, hle, hlt⟩

theorem bandsFrom_shades (hsorted : samples.Pairwise (·.t ≤ ·.t)) (h : Shades bands P)
    (hend : ∀ b ∈ bands, ∀ s ∈ samples, b.stop ≤ s.t) :
    Shades (bandsFrom eventLength bands samples) fun x ↦ P x ∨ Alarmed samples eventLength x := by
  induction samples generalizing bands P with
  | nil => exact h.congr fun x ↦ by simp [Alarmed]
  | cons s samples ih =>
    obtain ⟨hfirst, hrest⟩ := List.pairwise_cons.mp hsorted
    have hstart : ∀ b ∈ bands, b.stop ≤ s.t := fun b hb ↦ hend b hb s List.mem_cons_self
    rw [bandsFrom]
    split_ifs with hband
    · obtain ⟨halarm, hlt⟩ := hband
      have hstop : ∀ s' ∈ samples, reach eventLength samples ≤ s'.t := by
        cases samples with
        | nil => exact fun s' hs' ↦ absurd hs' List.not_mem_nil
        | cons next samples =>
          intro s' hs'
          rcases List.mem_cons.mp hs' with rfl | hs'
          · exact le_rfl
          · exact (List.pairwise_cons.mp hrest).1 s' hs'
      refine (ih hrest (h.push hstart hlt) fun b hb s' hs' ↦ ?_).congr fun x ↦ ?_
      · exact (pushBand_stop (fun b hb ↦ (hstart b hb).trans hlt.le) b hb).trans (hstop s' hs')
      · rw [alarmed_cons, or_assoc]
        simp only [halarm, true_and]
    · refine (ih hrest h fun b hb s' hs' ↦ hend b hb s' (List.mem_cons_of_mem s hs')).congr
        fun x ↦ ?_
      rw [alarmed_cons, or_iff_right (a := _ ∧ _)]
      rintro ⟨halarm, hle, hlt⟩
      exact hband ⟨halarm, hle.trans_lt hlt⟩

/-- The bands lie apart, in order, and shade the times of the alarm samples. -/
theorem levelGraphBands_shades (hsorted : samples.Pairwise (·.t ≤ ·.t)) (eventLength : K) :
    Shades (levelGraphBands samples eventLength) (Alarmed samples eventLength) :=
  (bandsFrom_shades hsorted .nil fun b hb ↦ absurd hb List.not_mem_nil).congr
    fun x ↦ by simp only [false_or]

end Bands

section Queries

variable {K : Type} [AddCommGroup K] [LinearOrder K] [IsOrderedAddMonoid K]
  {samples : List (Sample K)} {eventLength : K}

/-- The nearest sample is found in every array, and the bands are exact. -/
theorem queries_exact (eventLength : K) (hsorted : samples.Pairwise (·.t ≤ ·.t)) :
    (FitsArray samples →
      ∀ t, ∃ fuel r, levelGraphSampleAt samples t fuel = some r ∧ Nearest samples t r) ∧
      Shades (levelGraphBands samples eventLength) (Alarmed samples eventLength) :=
  ⟨exists_levelGraphSampleAt hsorted, levelGraphBands_shades hsorted eventLength⟩

/-- Two samples at one time, as a clamped row gives them. -/
theorem queries_exact_clamped :
    let samples : List (Sample ℚ) := [⟨0, 0, 0, .normal⟩, ⟨5, 9, 0, .alarm⟩, ⟨5, 7, 0, .alarm⟩]
    FitsArray samples ∧
      (∀ t, ∃ fuel r, levelGraphSampleAt samples t fuel = some r ∧ Nearest samples t r) ∧
      Shades (levelGraphBands samples 6) (Alarmed samples 6) ∧
      levelGraphBands samples 6 = [⟨5, 6⟩] := by
  intro samples
  have hfits : FitsArray samples := by
    unfold FitsArray
    decide
  obtain ⟨hnearest, hshades⟩ := @queries_exact _ _ _ _ samples 6 (by decide)
  exact ⟨hfits, hnearest hfits, hshades, by decide⟩

section Larger

variable [Nontrivial K]

theorem exists_later (samples : List (Sample K)) : ∃ t, ∀ s ∈ samples, s.t < t := by
  induction samples with
  | nil => exact ⟨0, fun s hs ↦ absurd hs List.not_mem_nil⟩
  | cons s samples ih =>
    obtain ⟨t, ht⟩ := ih
    obtain ⟨t', ht'⟩ := exists_gt (max t s.t)
    refine ⟨t', fun s' hs' ↦ ?_⟩
    rcases List.mem_cons.mp hs' with rfl | hs'
    · exact (le_max_right _ _).trans_lt ht'
    · exact ((ht s' hs').trans_le (le_max_left _ _)).trans ht'

/-- The bands are exact, and the nearest sample is found exactly as long as every sum of two places
is an int of 32 bits. -/
theorem queries_exact_iff (eventLength : K) (hsorted : samples.Pairwise (·.t ≤ ·.t)) :
    (∀ t, ∃ fuel r, levelGraphSampleAt samples t fuel = some r ∧ Nearest samples t r) ∧
        Shades (levelGraphBands samples eventLength) (Alarmed samples eventLength) ↔
      FitsArray samples := by
  constructor
  · rintro ⟨h, -⟩
    by_contra hlarge
    obtain ⟨t, ht⟩ := exists_later samples
    obtain ⟨fuel, r, hr, -⟩ := h t
    rw [levelGraphSampleAt_eq_none ht (not_le.mp hlarge)] at hr
    cases hr
  · exact fun hfits ↦ ⟨exists_levelGraphSampleAt hsorted hfits,
      levelGraphBands_shades hsorted eventLength⟩

end Larger

end Queries

end ZoneMinder.LevelGraph
