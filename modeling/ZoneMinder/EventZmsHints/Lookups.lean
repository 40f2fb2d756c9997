import Mathlib.Data.List.Chain
import ZoneMinder.EventZmsHints

namespace ZoneMinder.EventZmsHints

open Lib

def boundaryRefreshMs : ℤ := 5000

def lookupRetryMs : ℤ := 2000

def lookupTimeoutMs : ℤ := 5000

/-- The last neighbour lookup. -/
structure Lookup (V : Type) where
  src : V
  sentAt : ℤ
  pending : Bool
  id : ℕ
  deriving DecidableEq

/-- The tracker with its lookups. -/
structure Guide (V : Type) where
  tracker : Tracker V := {}
  lookup : Option (Lookup V) := none
  lookups : ℕ := 0
  deriving DecidableEq

namespace Guide

-- Ids are compared by `==`, and a boundary is the id `0`.
variable {V : Type} [BEq V]

def hintsFor (g : Guide V) (current : V) : Option (Hints V) :=
  g.tracker.hints.filter (fun h ↦ h.src == current)

/-- The last lookup, where it was for the same event. -/
def same (g : Guide V) (current : V) : Option (Lookup V) :=
  g.lookup.filter (fun l ↦ l.src == current)

def needsLookup [Zero V] (g : Guide V) (current : V) (reverse : Bool) (now : ℤ) (paused : Bool) :
    Bool :=
  if (g.same current).any (fun l ↦ l.pending && now - l.sentAt < lookupTimeoutMs) then false
  else
    match g.hintsFor current with
    | none => (g.same current).all (fun l ↦ lookupRetryMs ≤ now - l.sentAt)
    | some h =>
      if !paused && !((if reverse then h.prev else h.next) == 0) then false
      else
        let asked :=
          match g.same current with
          | some l => max l.sentAt h.fetched
          | none => h.fetched
        boundaryRefreshMs ≤ now - asked

omit [BEq V] in
def lookingUp (g : Guide V) (src : V) (now : ℤ) : Guide V :=
  { g with
    lookup := some ⟨src, now, true, g.lookups + 1⟩
    lookups := g.lookups + 1 }

omit [BEq V] in
def isLatestLookup (g : Guide V) (id : ℕ) : Bool := g.lookup.any (fun l ↦ l.id = id)

omit [BEq V] in
def lookupDone (g : Guide V) (id : ℕ) : Guide V :=
  { g with lookup := g.lookup.map (fun l ↦ if l.id = id then { l with pending := false } else l) }

end Guide

/-- A lookup as it was sent, and whether it has been answered since. -/
structure Request (V : Type) where
  src : V
  sentAt : ℤ
  number : ℕ
  answered : Bool := false
  deriving DecidableEq

/-- Neighbours that a lookup brought. -/
structure Neighbours (V : Type) where
  number : ℕ
  src : V
  next : V
  prev : V
  deriving DecidableEq

/-- A page with its clock, the lookups it has sent and the replies it has applied, the newest
first. -/
structure Page (V : Type) where
  guide : Guide V := {}
  clock : ℤ
  sent : List (Request V) := []
  applied : List (Neighbours V) := []
  deriving DecidableEq

inductive Event (V : Type)
  | poll (current : V) (reverse paused : Bool) (now : ℤ)
  | reply (number : ℕ) (src next prev : V) (now : ℤ)
  | fail (number : ℕ)
  | take (current : V)
  | response (batch : ℕ) (delivered : Bool)
  | reset

def Request.answer {V : Type} (number : ℕ) (r : Request V) : Request V :=
  if r.number = number then { r with answered := true } else r

def Page.waits {V : Type} (p : Page V) (number : ℕ) : Bool :=
  p.sent.any (fun r ↦ r.number = number && !r.answered)

/-- The clock does not go back, and a lookup is answered at most once. A poll looks up what is
needed, and a reply counts where it is the latest lookup's. -/
def Page.step {V : Type} [BEq V] [Zero V] (p : Page V) : Event V → Option (Page V)
  | .poll current reverse paused now =>
    if p.clock ≤ now then
      if p.guide.needsLookup current reverse now paused then
        some { p with
          guide := p.guide.lookingUp current now
          clock := now
          sent := ⟨current, now, p.guide.lookups + 1, false⟩ :: p.sent }
      else some { p with clock := now }
    else none
  | .reply number src next prev now =>
    if p.clock ≤ now ∧ p.waits number then
      if p.guide.isLatestLookup number then
        some
          { guide := { p.guide with tracker := p.guide.tracker.set src next prev now }.lookupDone number
            clock := now
            sent := p.sent.map (Request.answer number)
            applied := ⟨number, src, next, prev⟩ :: p.applied }
      else
        some { p with
          guide := p.guide.lookupDone number
          clock := now
          sent := p.sent.map (Request.answer number) }
    else none
  | .fail number =>
    if p.waits number then
      some { p with
        guide := p.guide.lookupDone number
        sent := p.sent.map (Request.answer number) }
    else none
  | .take current => some { p with guide.tracker := (p.guide.tracker.take current).1 }
  | .response batch delivered =>
    some { p with guide.tracker := p.guide.tracker.response batch delivered }
  | .reset => some { p with guide.tracker := p.guide.tracker.reset }

variable {V : Type} [BEq V]

/-- Every lookup is for the event of the one before it. -/
def SameEvent (requests : List V) : Prop := requests.IsChain (fun later earlier ↦ earlier == later)

/-- A lookup that is sent now is paced by all before it for the same event. -/
def Paced (p : Page V) (current : V) (now : ℤ) : Prop :=
  ∀ between first earlier, p.sent = between ++ first :: earlier →
    SameEvent (current :: between.map Request.src ++ [first.src]) →
      lookupRetryMs ≤ now - first.sentAt ∧
        (first.answered = false → lookupTimeoutMs ≤ now - first.sentAt)

/-- Ids that are equal, as one value or by `==`. -/
def Alike (a b : V) : Prop := a = b ∨ a == b

/-- The hints are the neighbours that the highest lookup brought. -/
def FromHighest (p : Page V) (h : Hints V) : Prop :=
  ∃ n ∈ p.applied, Alike h.src n.src ∧ Alike h.next n.next ∧ Alike h.prev n.prev ∧
    ∀ m ∈ p.applied, m.number ≤ n.number

/-- Two lookups, one after the other, keep their distance where they are for the same event. -/
def Spaced (later earlier : Request V) : Prop :=
  earlier.src == later.src →
    lookupRetryMs ≤ later.sentAt - earlier.sentAt ∧
      (earlier.answered = false → lookupTimeoutMs ≤ later.sentAt - earlier.sentAt)

structure Page.Sound (p : Page V) : Prop where
  lookup : p.guide.lookup = p.sent.head?.map (fun r ↦ ⟨r.src, r.sentAt, !r.answered, r.number⟩)
  lookups : ∀ r ∈ p.sent.head?, r.number = p.guide.lookups
  clock : ∀ r ∈ p.sent, r.sentAt ≤ p.clock
  ordered : p.sent.Pairwise (fun later earlier ↦ earlier.sentAt ≤ later.sentAt)
  spaced : p.sent.IsChain Spaced
  applied : ∀ n ∈ p.applied, n.number ≤ p.guide.lookups
  hints : ∀ h ∈ p.guide.tracker.hints, FromHighest p h

variable {p p' : Page V} {current : V} {reverse paused : Bool} {now : ℤ} {number : ℕ}

theorem of_ite_false {c : Prop} [Decidable c] {b : Bool} (h : (if c then false else b) = true) :
    ¬c ∧ b = true := by
  split_ifs at h with hc
  exact ⟨hc, h⟩

section Guide

variable [Zero V] {g : Guide V} {l : Lookup V}

theorem needsLookup_spaced (h : g.needsLookup current reverse now paused = true)
    (hl : g.lookup = some l) (hsame : l.src == current) :
    lookupRetryMs ≤ now - l.sentAt ∧ (l.pending = true → lookupTimeoutMs ≤ now - l.sentAt) := by
  have hlookup : g.same current = some l := by
    rw [Guide.same, hl]
    exact Option.filter_some_pos hsame
  rw [Guide.needsLookup, hlookup] at h
  obtain ⟨hpending, h⟩ := of_ite_false h
  have hwait : l.pending = true → lookupTimeoutMs ≤ now - l.sentAt :=
    fun hp ↦ not_lt.mp fun hlt ↦ hpending (by simp [hp, hlt])
  cases hhints : g.hintsFor current with
  | none =>
    rw [hhints] at h
    exact ⟨by simpa using h, hwait⟩
  | some hints =>
    rw [hhints] at h
    have hmax := le_max_left l.sentAt hints.fetched
    have hrefresh := of_decide_eq_true (of_ite_false h).2
    simp only [boundaryRefreshMs, lookupRetryMs] at hrefresh ⊢
    exact ⟨by omega, hwait⟩

/-- Nothing blocks a lookup for good. -/
theorem needsLookup_of_missing (hhints : g.hintsFor current = none)
    (hlast : ∀ l ∈ g.lookup, lookupTimeoutMs ≤ now - l.sentAt) :
    g.needsLookup current reverse now paused = true := by
  have hsame : ∀ l ∈ g.same current, lookupTimeoutMs ≤ now - l.sentAt :=
    fun l hl ↦ hlast l (Option.mem_filter_iff.mp hl).1
  rw [Guide.needsLookup, hhints]
  cases hl : g.same current with
  | none => rfl
  | some l =>
    have hlate := hsame l hl
    simp only [Option.any_some, Option.all_some]
    rw [if_neg]
    · simp only [lookupRetryMs, lookupTimeoutMs] at hlate ⊢
      exact decide_eq_true (by omega)
    · simp only [Bool.and_eq_true, decide_eq_true_eq, not_and, not_lt]
      exact fun _ ↦ hlate

end Guide

section Neighbours

/-- The send state is all that sending changes. -/
def SameNeighbours (t t' : Tracker V) : Prop :=
  ∀ h' ∈ t'.hints, ∃ h ∈ t.hints, h'.src = h.src ∧ h'.next = h.next ∧ h'.prev = h.prev

theorem take_neighbours (t : Tracker V) (current : V) : SameNeighbours t (t.take current).1 := by
  intro h' hh'
  rw [Tracker.take] at hh'
  cases hh : t.hints with
  | none => simp [hh] at hh'
  | some h =>
    rw [hh] at hh'
    simp only at hh'
    split_ifs at hh'
    · rw [hh] at hh'
      exact ⟨h', hh', rfl, rfl, rfl⟩
    · obtain rfl := Option.some.inj hh'
      exact ⟨h, rfl, rfl, rfl, rfl⟩

omit [BEq V] in
theorem response_neighbours (t : Tracker V) (batch : ℕ) (delivered : Bool) :
    SameNeighbours t (t.response batch delivered) := by
  intro h' hh'
  obtain ⟨h, hh, rfl⟩ := Option.map_eq_some_iff.mp hh'
  refine ⟨h, hh, ?_⟩
  rw [Hints.response]
  simp only
  split_ifs <;> exact ⟨rfl, rfl, rfl⟩

omit [BEq V] in
theorem reset_neighbours (t : Tracker V) : SameNeighbours t t.reset := by
  intro h' hh'
  obtain ⟨h, hh, rfl⟩ := Option.map_eq_some_iff.mp hh'
  exact ⟨h, hh, rfl, rfl, rfl⟩

/-- Whether they were known or not, the hints are the neighbours that were set. -/
theorem set_neighbours (t : Tracker V) (src next prev : V) (now : ℤ) :
    ∀ h ∈ (t.set src next prev now).hints,
      Alike h.src src ∧ Alike h.next next ∧ Alike h.prev prev := by
  intro h hh
  rw [Tracker.set] at hh
  split_ifs at hh with hknows
  · obtain ⟨old, hold, rfl⟩ := Option.map_eq_some_iff.mp hh
    rw [Tracker.knows, hold] at hknows
    simp only [Option.any_some, Bool.and_eq_true] at hknows
    exact ⟨.inr hknows.1.1, .inr hknows.1.2, .inr hknows.2⟩
  · obtain rfl := Option.some.inj hh
    exact ⟨.inl rfl, .inl rfl, .inl rfl⟩

theorem FromHighest.congr {h h' : Hints V} (hh : FromHighest p h) (happlied : p'.applied = p.applied)
    (hsame : h'.src = h.src ∧ h'.next = h.next ∧ h'.prev = h.prev) : FromHighest p' h' := by
  obtain ⟨n, hn, hsrc, hnext, hprev, hmax⟩ := hh
  rw [← hsame.1] at hsrc
  rw [← hsame.2.1] at hnext
  rw [← hsame.2.2] at hprev
  exact ⟨n, happlied ▸ hn, hsrc, hnext, hprev, happlied ▸ hmax⟩

end Neighbours

section Steps

theorem Page.Sound.tracker (hp : p.Sound) {t : Tracker V} (h : SameNeighbours p.guide.tracker t) :
    Page.Sound { p with guide.tracker := t } := by
  refine ⟨hp.lookup, hp.lookups, hp.clock, hp.ordered, hp.spaced, hp.applied, ?_⟩
  intro h' hh'
  obtain ⟨old, hold, hsame⟩ := h h' hh'
  exact (hp.hints old hold).congr rfl hsame

omit [BEq V] in
@[simp] theorem answer_fields (number : ℕ) (r : Request V) :
    (r.answer number).src = r.src ∧ (r.answer number).sentAt = r.sentAt ∧
      (r.answer number).number = r.number := by
  rw [Request.answer]
  split_ifs <;> exact ⟨rfl, rfl, rfl⟩

omit [BEq V] in
theorem answered_of_answer {r : Request V} (h : (r.answer number).answered = false) :
    r.answered = false := by
  rw [Request.answer] at h
  split_ifs at h
  exact h

/-- A lookup that is answered is not waited for any more. -/
theorem Page.Sound.answer (hp : p.Sound) (number : ℕ) (hnow : p.clock ≤ now) :
    Page.Sound { p with
      guide := p.guide.lookupDone number
      clock := now
      sent := p.sent.map (Request.answer number) } := by
  refine ⟨?_, ?_, ?_, ?_, ?_, hp.applied, ?_⟩
  · change p.guide.lookup.map _ = _
    rw [hp.lookup, List.head?_map, Option.map_map, Option.map_map]
    congr 1
    funext r
    simp only [Function.comp_apply, Request.answer]
    split_ifs <;> rfl
  · intro r hr
    rw [List.head?_map] at hr
    obtain ⟨old, hold, rfl⟩ := Option.map_eq_some_iff.mp hr
    exact (answer_fields number old).2.2.trans (hp.lookups old hold)
  · intro r hr
    obtain ⟨old, hold, rfl⟩ := List.mem_map.mp hr
    rw [(answer_fields number old).2.1]
    exact (hp.clock old hold).trans hnow
  · rw [List.pairwise_map]
    simpa only [answer_fields] using hp.ordered
  · rw [List.isChain_map]
    refine hp.spaced.imp ?_
    intro later earlier hspaced
    simp only [Spaced, answer_fields]
    intro hsame
    exact ⟨(hspaced hsame).1, fun h ↦ (hspaced hsame).2 (answered_of_answer h)⟩
  · intro h hh
    exact (hp.hints h hh).congr rfl ⟨rfl, rfl, rfl⟩

theorem number_of_latest (hp : p.Sound) (h : p.guide.isLatestLookup number = true) :
    number = p.guide.lookups := by
  rw [Guide.isLatestLookup, hp.lookup] at h
  cases hr : p.sent.head? with
  | none => simp [hr] at h
  | some r =>
    have hnumber : r.number = number := by simpa [hr] using h
    exact hnumber.symm.trans (hp.lookups r hr)

theorem Page.Sound.set (hp : p.Sound) {src next prev : V}
    (hlatest : p.guide.isLatestLookup number = true) :
    Page.Sound { p with
      guide.tracker := p.guide.tracker.set src next prev now
      applied := ⟨number, src, next, prev⟩ :: p.applied } := by
  have hnumber := number_of_latest hp hlatest
  refine ⟨hp.lookup, hp.lookups, hp.clock, hp.ordered, hp.spaced, ?_, ?_⟩
  · intro n hn
    rcases List.mem_cons.mp hn with rfl | hn
    · exact hnumber.le
    · exact hp.applied n hn
  · intro h hh
    obtain ⟨hsrc, hnext, hprev⟩ := set_neighbours p.guide.tracker src next prev now h hh
    refine ⟨_, List.mem_cons_self, hsrc, hnext, hprev, ?_⟩
    intro m hm
    rcases List.mem_cons.mp hm with rfl | hm
    · exact le_rfl
    · exact (hp.applied m hm).trans hnumber.ge

variable [Zero V]

theorem Page.Sound.lookingUp (hp : p.Sound) (hnow : p.clock ≤ now)
    (hneeds : p.guide.needsLookup current reverse now paused = true) :
    Page.Sound { p with
      guide := p.guide.lookingUp current now
      clock := now
      sent := ⟨current, now, p.guide.lookups + 1, false⟩ :: p.sent } := by
  refine ⟨rfl, ?_, ?_, ?_, ?_, fun n hn ↦ Nat.le_succ_of_le (hp.applied n hn), ?_⟩
  · intro r hr
    obtain rfl := Option.some.inj hr
    rfl
  · intro r hr
    rcases List.mem_cons.mp hr with rfl | hr
    · exact le_rfl
    · exact (hp.clock r hr).trans hnow
  · exact List.pairwise_cons.mpr ⟨fun r hr ↦ (hp.clock r hr).trans hnow, hp.ordered⟩
  · rw [List.isChain_cons]
    refine ⟨?_, hp.spaced⟩
    intro r hr hsame
    have hlookup : p.guide.lookup = some ⟨r.src, r.sentAt, !r.answered, r.number⟩ := by
      rw [hp.lookup, Option.mem_def.mp hr]
      rfl
    obtain ⟨hretry, htimeout⟩ := needsLookup_spaced hneeds hlookup hsame
    exact ⟨hretry, fun h ↦ htimeout (by simp [h])⟩
  · intro h hh
    exact (hp.hints h hh).congr rfl ⟨rfl, rfl, rfl⟩

theorem Page.Sound.step_sound (hp : p.Sound) {event : Event V} (hstep : p.step event = some p') :
    p'.Sound := by
  cases event with
  | poll current reverse paused now =>
    rw [Page.step] at hstep
    split_ifs at hstep with hnow hneeds
    · obtain rfl := Option.some.inj hstep
      exact hp.lookingUp hnow hneeds
    · obtain rfl := Option.some.inj hstep
      exact ⟨hp.lookup, hp.lookups, fun r hr ↦ (hp.clock r hr).trans hnow, hp.ordered, hp.spaced,
        hp.applied, fun h hh ↦ (hp.hints h hh).congr rfl ⟨rfl, rfl, rfl⟩⟩
  | reply number src next prev now =>
    rw [Page.step] at hstep
    split_ifs at hstep with hnow hlatest
    · obtain rfl := Option.some.inj hstep
      exact (hp.set hlatest).answer number hnow.1
    · obtain rfl := Option.some.inj hstep
      exact hp.answer number hnow.1
  | fail number =>
    rw [Page.step] at hstep
    split_ifs at hstep
    obtain rfl := Option.some.inj hstep
    exact hp.answer number le_rfl
  | take current =>
    obtain rfl := Option.some.inj hstep
    exact hp.tracker (take_neighbours _ _)
  | response batch delivered =>
    obtain rfl := Option.some.inj hstep
    exact hp.tracker (response_neighbours _ _ _)
  | reset =>
    obtain rfl := Option.some.inj hstep
    exact hp.tracker (reset_neighbours _)

omit [Zero V] in
theorem init_page_sound (clock : ℤ) : Page.Sound ({ clock } : Page V) := by
  refine ⟨rfl, ?_, ?_, .nil, .nil, ?_, ?_⟩ <;> intro a ha <;> cases ha

theorem reachable_page_sound {clock : ℤ} (hp : Reachable Page.step ({ clock } : Page V) p) :
    p.Sound := by
  obtain ⟨events, hrun⟩ := hp
  exact hrun.invariant (fun _ _ _ h _ hstep ↦ h.step_sound hstep) (init_page_sound clock)

/-- A poll that looks up an event keeps its distance from every lookup before it, as long as no
other event came between. -/
theorem Page.Sound.paced (hp : p.Sound) (hnow : p.clock ≤ now)
    (hneeds : p.guide.needsLookup current reverse now paused = true) : Paced p current now := by
  intro between first earlier hsent hsame
  have hsound := hp.lookingUp hnow hneeds
  have hspaced := hsound.spaced
  simp only [hsent] at hspaced
  -- the lookup right after the first one
  obtain ⟨later, next, hlater, hnext⟩ : ∃ later next,
      (⟨current, now, p.guide.lookups + 1, false⟩ : Request V) :: between = later ++ [next] ∧
        next.sentAt ≤ now := by
    refine ⟨_, _, (List.dropLast_concat_getLast (List.cons_ne_nil _ _)).symm, ?_⟩
    have hmem := List.getLast_mem
      (List.cons_ne_nil (⟨current, now, p.guide.lookups + 1, false⟩ : Request V) between)
    rcases List.mem_cons.mp hmem with heq | hmem
    · rw [heq]
    · exact (hp.clock _ (by simp [hsent, hmem])).trans hnow
  have hsplit : (⟨current, now, p.guide.lookups + 1, false⟩ : Request V) ::
      (between ++ first :: earlier) = later ++ next :: first :: earlier := by
    rw [← List.cons_append, hlater]
    simp
  have hevents : current :: between.map Request.src ++ [first.src] =
      later.map Request.src ++ next.src :: [first.src] := by
    have hmap := congrArg (List.map Request.src) hlater
    rw [List.map_cons, List.map_append] at hmap
    rw [hmap]
    simp
  rw [hsplit] at hspaced
  rw [SameEvent, hevents] at hsame
  have hadjacent : first.src == next.src :=
    (List.isChain_append.mp hsame).2.1.rel
  obtain ⟨hretry, htimeout⟩ := (List.isChain_append.mp hspaced).2.1.rel hadjacent
  constructor
  · exact hretry.trans (by omega)
  · exact fun h ↦ (htimeout h).trans (by omega)

/-- In every run of polls and replies the lookups for one event are paced, none is blocked for good
while its hints are missing, and the hints are those of the highest lookup that was applied. -/
theorem lookups_paced {clock : ℤ} (hp : Reachable Page.step ({ clock } : Page V) p) :
    (∀ current reverse paused now, p.clock ≤ now →
      p.guide.needsLookup current reverse now paused = true → Paced p current now) ∧
    (∀ current reverse paused now, p.guide.hintsFor current = none →
      (∀ r ∈ p.sent.head?, lookupTimeoutMs ≤ now - r.sentAt) →
        p.guide.needsLookup current reverse now paused = true) ∧
    ∀ h ∈ p.guide.tracker.hints, FromHighest p h := by
  have hsound := reachable_page_sound hp
  refine ⟨fun _ _ _ _ ↦ hsound.paced, ?_, hsound.hints⟩
  intro current reverse paused now hhints hlast
  apply needsLookup_of_missing hhints
  intro l hl
  rw [hsound.lookup] at hl
  obtain ⟨r, hr, rfl⟩ := Option.map_eq_some_iff.mp hl
  exact hlast r hr

end Steps

/-- A lookup is lost, its retry is answered, and then the late reply to the first one comes; and the
event that the hints lead to is looked up in its turn. -/
theorem lookups_paced_late : ∃ p : Page ℕ, p.sent.length = 2 ∧
    (∃ h ∈ p.guide.tracker.hints, h.next = 12 ∧ FromHighest p h) ∧
    p.guide.needsLookup 12 false 10000 false = true ∧ Paced p 12 10000 := by
  obtain ⟨p, hrun, hp⟩ := Run.exists_of_any Page.step (fun _ _ ↦ True) ({ clock := 0 } : Page ℕ)
    [.poll 10 false false 0, .poll 10 false false 4999, .poll 10 false false 5000,
      .reply 2 10 12 9 5100, .reply 1 10 11 9 5200]
    (fun p ↦ p.sent.length = 2 ∧ p.guide.tracker.hints.any (fun h ↦ h.next = 12) ∧
      p.clock ≤ 10000 ∧ p.guide.hintsFor 12 = none ∧ p.sent.head?.all (fun r ↦ r.sentAt ≤ 5000))
    (by decide)
  simp only [decide_eq_true_eq, Option.any_eq_true, Option.all_eq_true] at hp
  obtain ⟨hlength, ⟨h, hh, hnext⟩, hclock, hmissing, hlast⟩ := hp
  obtain ⟨hpaced, hneeds, hhighest⟩ := lookups_paced ⟨_, hrun⟩
  have hlookup := hneeds 12 false false 10000 hmissing fun r hr ↦ by
    have hsent := hlast r hr
    unfold lookupTimeoutMs
    omega
  exact ⟨p, hlength, ⟨h, hh, hnext, hhighest h hh⟩, hlookup, hpaced 12 false false 10000 hclock hlookup⟩

end ZoneMinder.EventZmsHints
