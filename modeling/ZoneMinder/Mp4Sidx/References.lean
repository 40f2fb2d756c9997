import Mathlib.Algebra.Order.BigOperators.Group.List
import ZoneMinder.Lib.Lists
import ZoneMinder.Mp4Sidx.Scan

namespace ZoneMinder.Mp4Sidx

open Lib

def sidxHeaderBytes : ℤ := 40
def sidxReferenceBytes : ℤ := 12
def maxReferenceCount : ℕ := 65535
def maxReferencedSize : ℤ := 2 ^ 31 - 1

def maxReferences (reserve : ℤ) : ℕ :=
  let exact := reserve - sidxHeaderBytes
  if 0 ≤ exact ∧ exact % sidxReferenceBytes = 0 ∧
      exact / sidxReferenceBytes ≤ maxReferenceCount then
    (exact / sidxReferenceBytes).toNat
  else
    let n := (reserve - sidxHeaderBytes - 8).tdiv sidxReferenceBytes
    if n ≤ 0 then 0
    else if maxReferenceCount < n.toNat then maxReferenceCount
    else n.toNat

structure Reference where
  size : ℤ
  duration : ℤ
  startsWithSap : Bool
  deriving DecidableEq

/-- A fragment lasts until the next one starts, the last one as long as its samples. The
differences are those of int64_t while no decode time is negative. -/
def lasting : List Fragment → List (Fragment × ℤ)
  | [] => []
  | [f] => [(f, f.trunDuration)]
  | f :: g :: rest => (f, g.tfdt - f.tfdt) :: lasting (g :: rest)

def mergeFragments (group : List (Fragment × ℤ)) : Reference where
  size := (group.map (·.1.size)).sum
  duration := (group.map (·.2)).sum
  startsWithSap := group.head?.any (·.1.startsWithSap)

def foldTail (references : List Reference) (tail : Reference) : Option (List Reference) :=
  match references.getLast? with
  | none => none
  | some back =>
    if back.size + tail.size ≤ maxReferencedSize then
      some (references.dropLast ++ [{ back with size := back.size + tail.size }])
    else none

def pushReference (references : List Reference) (reference : Reference) : Option (List Reference) :=
  if reference.duration ≤ 0 ∨ 0xFFFFFFFF < reference.duration then none
  else some (references ++ [reference])

/-- The loop over the groups of fragments; none where the source returns the empty vector. -/
def addReferences (references : List Reference) : List (List (Fragment × ℤ)) → Option (List Reference)
  | [] => some references
  | group :: rest =>
    let reference := mergeFragments group
    if reference.size ≤ 0 ∨ maxReferencedSize < reference.size then none
    else
      match if reference.duration = 0 ∧ rest = [] then foldTail references reference else none with
      | some folded => some folded
      | none => (pushReference references reference).bind fun references ↦
          addReferences references rest

def perReference (fragments limit : ℕ) : ℕ :=
  if fragments ≤ limit then 1 else (fragments + limit - 1) / limit

def buildReferences (track : VideoTrack) (fragments : List Fragment) (reserve : ℤ) :
    Option (List Reference) :=
  if fragments = [] ∨ track.timescale = 0 then none
  else if maxReferences reserve = 0 then none
  else
    addReferences []
      (chunks (perReference fragments.length (maxReferences reserve)) (lasting fragments))

def sidxBytes (references : List Reference) : ℤ :=
  sidxHeaderBytes + sidxReferenceBytes * references.length

def referenceEntry (reference : Reference) : Bytes :=
  wb32 (UInt32.ofInt reference.size) ++ (wb32 (UInt32.ofInt reference.duration) ++
    wb32 (if reference.startsWithSap then 0x90000000 else 0))

/-- When the recording starts; fragments.front() is there. -/
def earliestTime (fragments : List Fragment) : ℤ :=
  match fragments with
  | [] => 0
  | front :: _ => max (front.tfdt + front.firstCts) 0

def sidxBox (track : VideoTrack) (earliest : ℤ) (references : List Reference) : Bytes :=
  wb32 (UInt32.ofInt (sidxBytes references)) ++ (fourCC 's' 'i' 'd' 'x' ++ ([1, 0, 0, 0] ++
    (wb32 track.id ++ (wb32 track.timescale ++ (wb64 (UInt64.ofInt earliest) ++ (wb64 0 ++
      (wb16 0 ++ (wb16 (UInt16.ofNat references.length) ++
        references.flatMap referenceEntry))))))))

def freeBox (padding : ℤ) : Bytes :=
  if 0 < padding then
    wb32 (UInt32.ofInt padding) ++ (fourCC 'f' 'r' 'e' 'e' ++ List.replicate (padding.toNat - 8) 0)
  else []

def buildSidxRegion (track : VideoTrack) (fragments : List Fragment) (reserve : ℤ) : Bytes :=
  match buildReferences track fragments reserve with
  | none => []
  | some references =>
    let padding := reserve - sidxBytes references
    if padding < 0 ∨ 0 < padding ∧ padding < 8 then []
    else freeBox padding ++ sidxBox track (earliestTime fragments) references

/-- What a reference states about the fragments it covers. -/
structure Covers (group : List (Fragment × ℤ)) (reference : Reference) : Prop where
  nonempty : group ≠ []
  size : reference.size = (group.map (·.1.size)).sum
  duration : reference.duration = (group.map (·.2)).sum
  sap : reference.startsWithSap = group.head?.any (·.1.startsWithSap)
  size_pos : 0 < reference.size
  size_le : reference.size ≤ maxReferencedSize
  duration_pos : 0 < reference.duration
  duration_le : reference.duration ≤ 0xFFFFFFFF

variable {groups done : List (List (Fragment × ℤ))} {group : List (Fragment × ℤ)}
  {references result : List Reference} {reference tail : Reference} {fragments : List Fragment}
  {reserve : ℤ} {track : VideoTrack}

@[simp] theorem lasting_fst (fragments : List Fragment) :
    (lasting fragments).map (·.1) = fragments := by
  fun_induction lasting fragments with
  | case1 => rfl
  | case2 f => rfl
  | case3 f g rest ih => exact congrArg (f :: ·) ih

@[simp] theorem lasting_length (fragments : List Fragment) :
    (lasting fragments).length = fragments.length := by
  rw [← List.length_map (·.1), lasting_fst]

theorem lasting_sum (first : Fragment) (rest : List Fragment) :
    ((lasting (first :: rest)).map (·.2)).sum =
      ((first :: rest).getLast (List.cons_ne_nil _ _)).tfdt - first.tfdt +
        ((first :: rest).getLast (List.cons_ne_nil _ _)).trunDuration := by
  induction rest generalizing first with
  | nil => simp [lasting]
  | cons g rest ih =>
    rw [lasting, List.map_cons, List.sum_cons, ih g, List.getLast_cons (List.cons_ne_nil g rest)]
    omega

theorem pushReference_eq_some (h : pushReference references reference = some result) :
    0 < reference.duration ∧ reference.duration ≤ 0xFFFFFFFF ∧
      result = references ++ [reference] := by
  unfold pushReference at h
  split at h
  · contradiction
  · next hd => exact ⟨by omega, by omega, (Option.some.inj h).symm⟩

theorem foldTail_eq_some (h : foldTail references tail = some result) :
    ∃ before back, references = before ++ [back] ∧ back.size + tail.size ≤ maxReferencedSize ∧
      result = before ++ [{ back with size := back.size + tail.size }] := by
  unfold foldTail at h
  split at h
  · contradiction
  · next back hback =>
    obtain ⟨before, rfl⟩ := List.getLast?_eq_some_iff.mp hback
    split at h
    · next hle =>
      refine ⟨before, back, rfl, hle, ?_⟩
      rw [← Option.some.inj h, List.dropLast_concat]
    · contradiction

/-- A tail without a duration of its own widens the reference before it. -/
theorem Covers.fold (h : Covers group reference) {last : List (Fragment × ℤ)}
    (hsize : 0 < (mergeFragments last).size) (hduration : (mergeFragments last).duration = 0)
    (hle : reference.size + (mergeFragments last).size ≤ maxReferencedSize) :
    Covers (group ++ last)
      { reference with size := reference.size + (mergeFragments last).size } where
  nonempty hnil := h.nonempty (List.append_eq_nil_iff.mp hnil).1
  size := by rw [List.map_append, List.sum_append, ← h.size]; rfl
  duration := by
    rw [List.map_append, List.sum_append, ← h.duration]
    exact (Int.add_zero _).symm.trans (congrArg _ hduration.symm)
  sap := by
    obtain ⟨f, rest, rfl⟩ := List.exists_cons_of_ne_nil h.nonempty
    exact h.sap
  size_pos := Int.add_pos h.size_pos hsize
  size_le := hle
  duration_pos := h.duration_pos
  duration_le := h.duration_le

theorem exists_last_group {before : List Reference} {back : Reference}
    (h : List.Forall₂ Covers done (before ++ [back])) :
    ∃ first last, done = first ++ [last] ∧ List.Forall₂ Covers first before ∧ Covers last back := by
  have hfirst := List.forall₂_take_append done before [back] h
  have hlast := List.forall₂_drop_append done before [back] h
  cases hdrop : done.drop before.length with
  | nil =>
    rw [hdrop] at hlast
    cases hlast
  | cons last rest =>
    rw [hdrop] at hlast
    cases hlast with
    | cons hcovers hrest =>
      cases hrest
      refine ⟨done.take before.length, last, ?_, hfirst, hcovers⟩
      rw [← hdrop, List.take_append_drop]

/-- The loop keeps every fragment in one reference, in order. -/
theorem addReferences_covers (h : addReferences references groups = some result)
    (hdone : List.Forall₂ Covers done references) (hne : ∀ group ∈ groups, group ≠ []) :
    ∃ all, all.flatten = done.flatten ++ groups.flatten ∧ List.Forall₂ Covers all result ∧
      result.length ≤ references.length + groups.length := by
  induction groups generalizing references done with
  | nil =>
    obtain rfl := Option.some.inj h
    exact ⟨done, (List.append_nil _).symm, hdone, le_rfl⟩
  | cons group rest ih =>
    rw [addReferences] at h
    split at h
    · contradiction
    · next hsize =>
      split at h
      · next folded hfold =>
        obtain rfl := Option.some.inj h
        split at hfold
        · next hcond =>
          obtain ⟨hduration, rfl⟩ := hcond
          obtain ⟨before, back, rfl, hle, rfl⟩ := foldTail_eq_some hfold
          obtain ⟨first, last, rfl, hfirst, hlast⟩ := exists_last_group hdone
          refine ⟨first ++ [last ++ group], ?_, ?_, ?_⟩
          · simp
          · exact List.rel_append hfirst (.cons (hlast.fold (by omega) hduration hle) .nil)
          · simp
        · contradiction
      · obtain ⟨next, hpush, h⟩ := Option.bind_eq_some_iff.mp h
        obtain ⟨hpos, hle, rfl⟩ := pushReference_eq_some hpush
        have hcovers : Covers group (mergeFragments group) :=
          ⟨hne group List.mem_cons_self, rfl, rfl, rfl, by omega, by omega, hpos, hle⟩
        obtain ⟨all, hflat, hall, hlen⟩ := ih h (List.rel_append hdone (.cons hcovers .nil))
          fun g hg ↦ hne g (List.mem_cons_of_mem group hg)
        refine ⟨all, ?_, hall, ?_⟩
        · simpa using hflat
        · simp only [List.length_append, List.length_cons, List.length_nil] at hlen ⊢
          omega

theorem perReference_pos {n limit : ℕ} (h : 0 < limit) : 0 < perReference n limit := by
  unfold perReference
  split
  · exact Nat.one_pos
  · exact Nat.div_pos (by omega) h

theorem le_mul_perReference {n limit : ℕ} (h : 0 < limit) : n ≤ limit * perReference n limit := by
  unfold perReference
  split
  · omega
  · have hdiv := Nat.div_add_mod (n + limit - 1) limit
    have hmod := Nat.mod_lt (n + limit - 1) h
    omega

theorem maxReferences_pos (h : buildReferences track fragments reserve = some references) :
    0 < maxReferences reserve := by
  unfold buildReferences at h
  split at h
  · contradiction
  · split at h
    · contradiction
    · next hlimit => exact Nat.pos_of_ne_zero hlimit

theorem buildReferences_covers (h : buildReferences track fragments reserve = some references) :
    ∃ groups, groups.flatten = lasting fragments ∧ List.Forall₂ Covers groups references ∧
      references.length ≤ maxReferences reserve := by
  have hpos := maxReferences_pos h
  unfold buildReferences at h
  split at h
  · contradiction
  · rw [if_neg hpos.ne'] at h
    obtain ⟨groups, hflat, hcovers, hlen⟩ :=
      addReferences_covers h .nil (chunks_ne_nil _ _)
    rw [chunks_flatten, List.flatten_nil, List.nil_append] at hflat
    refine ⟨groups, hflat, hcovers, hlen.trans ?_⟩
    rw [List.length_nil, Nat.zero_add]
    refine chunks_length_le (perReference_pos hpos) ?_
    rw [lasting_length]
    exact le_mul_perReference hpos

theorem maxReferences_spec (reserve : ℤ) : maxReferences reserve = 0 ∨
    maxReferences reserve ≤ 65535 ∧ (40 + 12 * (maxReferences reserve : ℤ) = reserve ∨
      40 + 12 * (maxReferences reserve : ℤ) + 8 ≤ reserve) := by
  unfold maxReferences sidxHeaderBytes sidxReferenceBytes maxReferenceCount
  dsimp only
  split
  · omega
  · split
    · exact .inl rfl
    · next hn =>
      have hnum : 0 ≤ reserve - 40 - 8 := by
        by_contra hneg
        apply hn
        rw [← Int.neg_neg (reserve - 40 - 8), Int.neg_tdiv, Int.neg_nonpos_iff]
        exact Int.tdiv_nonneg (by omega) (by omega)
      rw [Int.tdiv_eq_ediv_of_nonneg hnum]
      split
      · omega
      · omega

/-- However few of the references are used, what is left over is nothing or a free box. -/
theorem padding_fits (hpos : 0 < maxReferences reserve)
    (hle : references.length ≤ maxReferences reserve) :
    reserve - sidxBytes references = 0 ∨ 8 ≤ reserve - sidxBytes references := by
  have hspec := maxReferences_spec reserve
  simp only [sidxBytes, sidxHeaderBytes, sidxReferenceBytes]
  omega

end ZoneMinder.Mp4Sidx
