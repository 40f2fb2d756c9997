import ZoneMinder.Filter.Ranges
import ZoneMinder.Lib.Calendar

namespace ZoneMinder.Filter

open Lib

/-- The values of a date term, a date with any time after it among them. -/
inductive DayValue
  | date (d : Date) (time : String)
  | today
  | now

namespace DayValue

variable (clock : Instant)

/-- The day that a value is in. -/
def day : DayValue → Date
  | date d _ => d
  | today => clock.date
  | now => clock.date

/-- Where the range of a value starts. -/
def start : DayValue → Instant
  | date d _ => .midnight d
  | today => .midnight clock.date
  | now => clock

/-- Where it stops; the calendar ends, and a moment after it is none. -/
def stop : DayValue → Option Instant
  | date d _ => d.next.map .midnight
  | today => clock.date.next.map .midnight
  | now => clock.tomorrow

end DayValue

/-- Days are compared by their numbers. -/
def dayRow : Row Unit ℕ where
  datum _ := none
  eq a b := a = b
  lt a b := a < b
  like _ _ := false
  regexp _ _ := false
  parity _ _ := false
  finds _ := false

/-- `to_days(column)` against `to_days(value)`. -/
def dayTruth (column : Option Instant) (comparator : Comparator) (day : Date) : Ternary :=
  comparator.truth dayRow (column.map (fun i ↦ i.date.dayNumber)) (some day.dayNumber)

/-- The comparison of days that a range stands for; several values are joined by `or`, as in every
other term. -/
def RangeOp.daysTruth (op : RangeOp) (column : Option Instant) (days : List Date) : Ternary :=
  match op with
  | eq => .disjs (days.map (dayTruth column .eq))
  | ne => .disjs (days.map (dayTruth column .ne))
  | gt => .disjs (days.map (dayTruth column .gt))
  | ge => .disjs (days.map (dayTruth column .ge))
  | lt => .disjs (days.map (dayTruth column .lt))
  | le => .disjs (days.map (dayTruth column .le))
  | oneOf => .disjs (days.map (dayTruth column .eq))
  | noneOf => (Ternary.disjs (days.map (dayTruth column .eq))).neg

/-- Instants as a database compares them. -/
def instantRow : Row Unit Instant where
  datum _ := none
  eq a b := a = b
  lt a b := a < b
  like _ _ := false
  regexp _ _ := false
  parity _ _ := false
  finds _ := false

def instantTruth (column : Option Instant) (comparator : Comparator) (bound : Option Instant) :
    Ternary := comparator.truth instantRow column bound

section Ranges

variable (clock : Instant) (column : Option Instant)

def withinTruth (value : DayValue) : Ternary :=
  (instantTruth column .ge (value.start clock)).conj (instantTruth column .lt (value.stop clock))

/-- The truth of the fragment for a range; an operator that takes no list has the first value. -/
def RangeOp.rangeTruth (op : RangeOp) (first : DayValue) (rest : List DayValue) : Ternary :=
  match op with
  | eq => withinTruth clock column first
  | ne => (withinTruth clock column first).neg
  | gt => instantTruth column .ge (first.stop clock)
  | ge => instantTruth column .ge (first.start clock)
  | lt => instantTruth column .lt (first.start clock)
  | le => instantTruth column .lt (first.stop clock)
  | oneOf => .disjs ((first :: rest).map (withinTruth clock column))
  | noneOf => (Ternary.disjs ((first :: rest).map (withinTruth clock column))).neg

end Ranges

/-- Whether an operator needs the end of a day. -/
def RangeOp.usesStop : RangeOp → Bool
  | ge => false
  | lt => false
  | _ => true

def RangeOp.isList : RangeOp → Bool
  | oneOf => true
  | noneOf => true
  | _ => false

/-- A value whose range is that of its day, as far as an operator needs it. -/
def DayValue.Whole (op : RangeOp) (value : DayValue) : Prop :=
  match value with
  | date d _ => op.usesStop → d.next.isSome
  | today => True
  | now => False

/-- That the first of several values decides. -/
def RangeOp.Leads (op : RangeOp) (day first : Date) : Prop :=
  match op with
  | eq => day = first
  | ne => day = first
  | gt => first ≤ day
  | ge => first ≤ day
  | lt => day ≤ first
  | le => day ≤ first
  | oneOf => True
  | noneOf => True

/-- A range stands for a comparison of days. -/
def RangeOp.Stands (op : RangeOp) (first : DayValue) (rest : List DayValue) : Prop :=
  if op.isList then ∀ value ∈ first :: rest, value.Whole op
  else first.Whole op ∧
    ∀ clock : Instant, clock.date.next.isSome → ∀ value ∈ rest, op.Leads (value.day clock) (first.day clock)

/-- On every day but the last of the calendar, a range agrees with the comparison of days. -/
def RangeOp.Agrees (op : RangeOp) (first : DayValue) (rest : List DayValue) : Prop :=
  ∀ clock : Instant, clock.date.next.isSome → ∀ column : Option Instant,
    op.rangeTruth clock column first rest =
      op.daysTruth column ((first :: rest).map (DayValue.day clock))

section Words

variable {ε : Type} {row : Row ε Instant} {clock : Instant} {left : ε} {bound : ε}
  {bounds : ε × ε} {value : DayValue} {comparator : Comparator}

/-- A row that compares its values as instants. -/
structure Chronological (row : Row ε Instant) : Prop where
  lt : row.lt = fun i i' ↦ decide (i < i')

/-- Words that stand for one operand of a value, whatever is around them. -/
structure StandsFor (row : Row ε Instant) (words : List (Word ε)) (value : Ternary) : Prop where
  truth : truth row words = some value
  grouped : ∀ before after : List Sign,
    evaluate (before ++ signs row words ++ after) = evaluate (before ++ [.operand value] ++ after)

theorem standsFor_iff {words : List (Word ε)} {truth truth' : Ternary}
    (h : IsOperand (signs row words) truth) : StandsFor row words truth' ↔ truth = truth' := by
  constructor
  · intro hstands
    have htruth := hstands.truth
    rw [truth_of_isOperand h] at htruth
    exact Option.some.inj htruth
  · rintro rfl
    exact ⟨truth_of_isOperand h, h.evaluate_eq⟩

/-- The bounds of a range are read as where its value starts and stops. -/
structure Bounded (row : Row ε Instant) (clock : Instant) (bounds : ε × ε) (value : DayValue) :
    Prop where
  start : row.datum bounds.1 = some (value.start clock)
  stop : row.datum bounds.2 = value.stop clock

theorem Chronological.truth_ge (h : Chronological row) :
    (Atom.compare left .ge bound).truth row = instantTruth (row.datum left) .ge (row.datum bound) := by
  simp only [Atom.truth, Comparator.truth, instantTruth, h.lt]
  rfl

theorem Chronological.truth_lt (h : Chronological row) :
    (Atom.compare left .lt bound).truth row = instantTruth (row.datum left) .lt (row.datum bound) := by
  simp only [Atom.truth, Comparator.truth, instantTruth, h.lt]
  rfl

variable (hrow : Chronological row)
include hrow

theorem isOperand_withinWords (h : Bounded row clock bounds value) :
    IsOperand (signs row (withinWords left bounds)) (withinTruth clock (row.datum left) value) := by
  rw [withinTruth, ← h.start, ← h.stop, ← hrow.truth_ge, ← hrow.truth_lt]
  exact isOperand_within row left bounds

theorem isOperand_outsideWords (h : Bounded row clock bounds value) :
    IsOperand (signs row (outsideWords left bounds))
      (withinTruth clock (row.datum left) value).neg := by
  rw [withinTruth, ← h.start, ← h.stop, ← hrow.truth_ge, ← hrow.truth_lt]
  exact isOperand_outside row left bounds

/-- Every listed operator makes one operand of the values, with the truth of its range. -/
theorem isOperand_rangeWords {op : String} {r : RangeOp} (hop : rangeOps.lookup op = some r)
    {ranges : List (ε × ε)} {first : DayValue} {rest : List DayValue}
    (h : List.Forall₂ (Bounded row clock) ranges (first :: rest)) :
    ∃ words, rangeWords left op ranges = some words ∧
      IsOperand (signs row words) (r.rangeTruth clock (row.datum left) first rest) := by
  have hne : ranges ≠ [] := by
    rintro rfl
    cases h
  obtain ⟨b, ranges', hfirst, -, rfl⟩ := List.forall₂_cons_right_iff.mp h
  have hlisted := mem_of_lookup hop
  simp only [rangeOps, List.mem_cons, List.not_mem_nil, or_false, Prod.mk.injEq] at hlisted
  have hwithin := @isOperand_withinWords _ _ _ left _ _ hrow hfirst
  have houtside := @isOperand_outsideWords _ _ _ left _ _ hrow hfirst
  have hgt := @isOperand_atom _ _ row (.compare left .ge b.2)
  have hge := @isOperand_atom _ _ row (.compare left .ge b.1)
  have hlt := @isOperand_atom _ _ row (.compare left .lt b.1)
  have hle := @isOperand_atom _ _ row (.compare left .lt b.2)
  rw [hrow.truth_ge, hfirst.stop] at hgt
  rw [hrow.truth_ge, hfirst.start] at hge
  rw [hrow.truth_lt, hfirst.start] at hlt
  rw [hrow.truth_lt, hfirst.stop] at hle
  have honeOf : IsOperand (signs row (bracketed (joinedWords .disj
      ((b :: ranges').map (fun b ↦ bracketed (withinWords left b))))))
      (RangeOp.oneOf.rangeTruth clock (row.datum left) first rest) := by
    apply isOperand_disjoined
    · rw [List.forall₂_map_left_iff, List.forall₂_map_right_iff]
      exact h.imp fun b value hb ↦ isOperand_bracketed (isOperand_withinWords hrow hb)
    · simp
  have hnoneOf : IsOperand (signs row (bracketed (joinedWords .conj
      ((b :: ranges').map (outsideWords left)))))
      (RangeOp.noneOf.rangeTruth clock (row.datum left) first rest) := by
    rw [RangeOp.rangeTruth, Ternary.neg_disjs, List.map_map]
    apply isOperand_conjoinedAll
    · rw [List.forall₂_map_left_iff, List.forall₂_map_right_iff]
      exact h.imp fun b value hb ↦ isOperand_outsideWords hrow hb
    · simp
  rcases hlisted with ⟨rfl, rfl⟩ | ⟨rfl, rfl⟩ | ⟨rfl, rfl⟩ | ⟨rfl, rfl⟩ | ⟨rfl, rfl⟩ | ⟨rfl, rfl⟩ |
    ⟨rfl, rfl⟩ | ⟨rfl, rfl⟩ | ⟨rfl, rfl⟩ | ⟨rfl, rfl⟩ | ⟨rfl, rfl⟩ | ⟨rfl, rfl⟩
  -- `=` and `IS`, `!=` and `IS NOT`
  · exact ⟨_, rfl, hwithin⟩
  · exact ⟨_, rfl, hwithin⟩
  · exact ⟨_, rfl, houtside⟩
  · exact ⟨_, rfl, houtside⟩
  -- `>`, `>=`, `<`, `<=`
  · exact ⟨_, rfl, hgt⟩
  · exact ⟨_, rfl, hge⟩
  · exact ⟨_, rfl, hlt⟩
  · exact ⟨_, rfl, hle⟩
  -- the lists
  · exact ⟨_, rfl, honeOf⟩
  · exact ⟨_, rfl, honeOf⟩
  · exact ⟨_, rfl, hnoneOf⟩
  · exact ⟨_, rfl, hnoneOf⟩

omit hrow in
/-- A fragment that is the operand of its range stands for the days where the range agrees with
them, whatever else holds of how it is written. -/
theorem standsFor_iff_agrees {row : Instant → Option Instant → Row ε Instant} {r : RangeOp}
    {first : DayValue} {rest : List DayValue} {fragment : String → Option (List (Word ε))}
    {written : String → List (Word ε) → Prop}
    (hwritten : ∀ name words, fragment name = some words → written name words)
    (hfragment : ∀ clock column name, ∃ words, fragment name = some words ∧
      IsOperand (signs (row clock column) words) (r.rangeTruth clock column first rest)) :
    (∀ clock : Instant, clock.date.next.isSome → ∀ (column : Option Instant) (name : String),
      ∃ words, fragment name = some words ∧ written name words ∧
        StandsFor (row clock column) words
          (r.daysTruth column ((first :: rest).map (DayValue.day clock)))) ↔
      r.Agrees first rest := by
  constructor
  · intro h clock hclock column
    obtain ⟨words, hwords, hoperand⟩ := hfragment clock column "E.StartDateTime"
    obtain ⟨words', hwords', -, hstands⟩ := h clock hclock column "E.StartDateTime"
    obtain rfl := Option.some.inj (hwords.symm.trans hwords')
    exact (standsFor_iff hoperand).mp hstands
  · intro h clock hclock column name
    obtain ⟨words, hwords, hoperand⟩ := hfragment clock column name
    exact ⟨words, hwords, hwritten name words hwords,
      (standsFor_iff hoperand).mpr (h clock hclock column)⟩

end Words

section Agreement

variable {clock i : Instant} {d : Date} {value first : DayValue} {rest : List DayValue}
  {op : RangeOp}

theorem instantTruth_midnight (i : Instant) (d : Date) :
    instantTruth (some i) .ge (some (.midnight d)) = .ofBool (d ≤ i.date) ∧
      instantTruth (some i) .lt (some (.midnight d)) = .ofBool (i.date < d) := by
  have hlt : (decide (i < .midnight d) : Bool) = decide (i.date < d) := by
    simp only [Instant.lt_midnight]
  simp only [instantTruth, Comparator.truth, instantRow, liftTernary, hlt, Ternary.neg_ofBool]
  simp [← not_lt]

theorem dayTruth_some (i : Instant) :
    dayTruth (some i) .eq = (fun d ↦ .ofBool (i.date = d)) ∧
      dayTruth (some i) .ne = (fun d ↦ .ofBool (i.date ≠ d)) ∧
      dayTruth (some i) .gt = (fun d ↦ .ofBool (d < i.date)) ∧
      dayTruth (some i) .ge = (fun d ↦ .ofBool (d ≤ i.date)) ∧
      dayTruth (some i) .lt = (fun d ↦ .ofBool (i.date < d)) ∧
      dayTruth (some i) .le = (fun d ↦ .ofBool (i.date ≤ d)) := by
  have heq (d : Date) : i.date.dayNumber = d.dayNumber ↔ i.date = d :=
    Date.dayNumber_strictMono.injective.eq_iff
  have hlt (d : Date) : i.date.dayNumber < d.dayNumber ↔ i.date < d :=
    Date.dayNumber_strictMono.lt_iff_lt
  have hgt (d : Date) : d.dayNumber < i.date.dayNumber ↔ d < i.date :=
    Date.dayNumber_strictMono.lt_iff_lt
  refine ⟨?_, ?_, ?_, ?_, ?_, ?_⟩ <;> funext d <;>
    simp [dayTruth, Comparator.truth, dayRow, liftTernary, heq, hlt, hgt, ← not_lt]

theorem dayTruth_none (comparator : Comparator) (d : Date) : dayTruth none comparator d = .unknown := by
  cases comparator <;> rfl

theorem instantTruth_none (comparator : Comparator) (bound : Option Instant) :
    instantTruth none comparator bound = .unknown := by
  cases comparator <;> cases bound <;> rfl

theorem disjs_unknown {α : Type} (a : α) (l : List α) :
    Ternary.disjs ((a :: l).map (fun _ ↦ .unknown)) = .unknown := by
  induction l generalizing a with
  | nil => rfl
  | cons b l ih =>
    have hrest := ih b
    rw [List.map_cons, Ternary.disjs_cons, hrest]
    rfl

theorem DayValue.Whole.start_eq (h : value.Whole op) :
    value.start clock = .midnight (value.day clock) := by
  cases value with
  | date d time => rfl
  | today => rfl
  | now => exact h.elim

theorem DayValue.Whole.stop_eq (h : value.Whole op) (hop : op.usesStop)
    (hclock : clock.date.next.isSome) :
    ∃ d, (value.day clock).next = some d ∧ value.stop clock = some (.midnight d) := by
  cases value with
  | date d time =>
    obtain ⟨d', hd'⟩ := Option.isSome_iff_exists.mp (h hop)
    exact ⟨d', hd', by simp [stop, hd']⟩
  | today =>
    obtain ⟨d', hd'⟩ := Option.isSome_iff_exists.mp hclock
    exact ⟨d', hd', by simp [stop, hd']⟩
  | now => exact h.elim

theorem instantTruth_start (h : value.Whole op) (i : Instant) :
    instantTruth (some i) .ge (value.start clock) = .ofBool (value.day clock ≤ i.date) ∧
      instantTruth (some i) .lt (value.start clock) = .ofBool (i.date < value.day clock) := by
  rw [h.start_eq]
  exact instantTruth_midnight i _

theorem instantTruth_stop (h : value.Whole op) (hop : op.usesStop)
    (hclock : clock.date.next.isSome) (i : Instant) :
    instantTruth (some i) .ge (value.stop clock) = .ofBool (value.day clock < i.date) ∧
      instantTruth (some i) .lt (value.stop clock) = .ofBool (i.date ≤ value.day clock) := by
  obtain ⟨d, hnext, hstop⟩ := h.stop_eq hop hclock
  have hle : i.date < d ↔ i.date ≤ value.day clock := by
    rw [← Instant.lt_midnight, Instant.lt_midnight_next hnext]
  have hge : d ≤ i.date ↔ value.day clock < i.date := by
    rw [← not_lt, hle, not_le]
  rw [hstop, (instantTruth_midnight i d).1, (instantTruth_midnight i d).2]
  simp only [hle, hge, and_self]

theorem withinTruth_some (h : value.Whole op) (hop : op.usesStop)
    (hclock : clock.date.next.isSome) (i : Instant) :
    withinTruth clock (some i) value = .ofBool (i.date = value.day clock) := by
  rw [withinTruth, (instantTruth_start h i).1, (instantTruth_stop h hop hclock i).2,
    Ternary.conj_ofBool]
  congr 1
  rw [← Bool.decide_and]
  simp only [le_antisymm_iff, and_comm]

/-- The first of several days decides where it holds if any other does. -/
theorem disjs_leads {p : Date → Bool}
    (h : ∀ value ∈ rest, p (value.day clock) → p (first.day clock)) :
    Ternary.disjs (((first :: rest).map (DayValue.day clock)).map (fun d ↦ .ofBool (p d))) =
      .ofBool (p (first.day clock)) := by
  rw [Ternary.disjs_map_ofBool, List.any_map]
  congr 1
  rw [Bool.eq_iff_iff, List.any_eq_true]
  constructor
  · rintro ⟨value, hvalue, hp⟩
    rcases List.mem_cons.mp hvalue with rfl | hvalue
    · exact hp
    · exact h value hvalue hp
  · intro hp
    exact ⟨first, List.mem_cons_self, hp⟩

theorem rangeTruth_none (op : RangeOp) :
    op.rangeTruth clock none first rest = .unknown ∧
      op.daysTruth none ((first :: rest).map (DayValue.day clock)) = .unknown := by
  have hwithin : withinTruth clock none = fun _ ↦ .unknown := by
    funext value
    rw [withinTruth, instantTruth_none, instantTruth_none]
    rfl
  have hday (comparator : Comparator) : dayTruth none comparator = fun _ ↦ .unknown :=
    funext (dayTruth_none comparator)
  have hunknown : Ternary.disjs (((first :: rest).map (DayValue.day clock)).map fun _ ↦ .unknown) =
      .unknown := disjs_unknown _ _
  cases op <;> refine ⟨?_, ?_⟩ <;>
    simp only [RangeOp.rangeTruth, RangeOp.daysTruth, instantTruth_none, hwithin, hday,
      hunknown, disjs_unknown] <;> rfl

theorem agrees_of_stands (h : op.Stands first rest) : op.Agrees first rest := by
  intro clock hclock column
  cases column with
  | none => rw [(rangeTruth_none op).1, (rangeTruth_none op).2]
  | some i =>
    obtain ⟨heq, hne, hgt, hge, hlt, hle⟩ := dayTruth_some i
    have hlist (hop : op.usesStop) (hall : ∀ value ∈ first :: rest, value.Whole op) :
        (first :: rest).map (withinTruth clock (some i)) =
          ((first :: rest).map (DayValue.day clock)).map (dayTruth (some i) .eq) := by
      rw [List.map_map]
      apply List.map_congr_left
      intro value hvalue
      rw [withinTruth_some (hall value hvalue) hop hclock, heq]
      rfl
    rw [RangeOp.Stands] at h
    cases op with
    | oneOf => simp only [RangeOp.rangeTruth, RangeOp.daysTruth, hlist rfl h]
    | noneOf => simp only [RangeOp.rangeTruth, RangeOp.daysTruth, hlist rfl h]
    | eq =>
      obtain ⟨hwhole, hleads⟩ := h
      rw [RangeOp.rangeTruth, RangeOp.daysTruth, heq, withinTruth_some hwhole rfl hclock,
        disjs_leads fun value hvalue hp ↦ by rwa [hleads clock hclock value hvalue] at hp]
    | ne =>
      obtain ⟨hwhole, hleads⟩ := h
      rw [RangeOp.rangeTruth, RangeOp.daysTruth, hne, withinTruth_some hwhole rfl hclock,
        disjs_leads fun value hvalue hp ↦ by rwa [hleads clock hclock value hvalue] at hp,
        Ternary.neg_ofBool]
      simp
    | gt =>
      obtain ⟨hwhole, hleads⟩ := h
      rw [RangeOp.rangeTruth, RangeOp.daysTruth, hgt, (instantTruth_stop hwhole rfl hclock i).1,
        disjs_leads fun value hvalue hp ↦ by
          simp only [decide_eq_true_eq] at hp ⊢
          exact (hleads clock hclock value hvalue).trans_lt hp]
    | ge =>
      obtain ⟨hwhole, hleads⟩ := h
      rw [RangeOp.rangeTruth, RangeOp.daysTruth, hge, (instantTruth_start hwhole i).1,
        disjs_leads fun value hvalue hp ↦ by
          simp only [decide_eq_true_eq] at hp ⊢
          exact (hleads clock hclock value hvalue).trans hp]
    | lt =>
      obtain ⟨hwhole, hleads⟩ := h
      rw [RangeOp.rangeTruth, RangeOp.daysTruth, hlt, (instantTruth_start hwhole i).2,
        disjs_leads fun value hvalue hp ↦ by
          simp only [decide_eq_true_eq] at hp ⊢
          exact hp.trans_le (hleads clock hclock value hvalue)]
    | le =>
      obtain ⟨hwhole, hleads⟩ := h
      rw [RangeOp.rangeTruth, RangeOp.daysTruth, hle, (instantTruth_stop hwhole rfl hclock i).2,
        disjs_leads fun value hvalue hp ↦ by
          simp only [decide_eq_true_eq] at hp ⊢
          exact hp.trans (hleads clock hclock value hvalue)]

/-- The comparison of days has a truth value, and it is the same all day. -/
theorem daysTruth_some (op : RangeOp) (i : Instant) (days : List Date) :
    op.daysTruth (some i) days = .yes ∨ op.daysTruth (some i) days = .no := by
  have hbool (p : Date → Bool) : Ternary.disjs (days.map fun d ↦ .ofBool (p d)) = .yes ∨
      Ternary.disjs (days.map fun d ↦ .ofBool (p d)) = .no := by
    rw [Ternary.disjs_map_ofBool]
    cases days.any p <;> simp [Ternary.ofBool]
  have hknown (comparator : Comparator) : ∃ p : Date → Bool,
      dayTruth (some i) comparator = fun d ↦ .ofBool (p d) := by
    cases comparator <;>
      exact ⟨_, funext fun d ↦ by
        simp only [dayTruth, Comparator.truth, Option.map_some, liftTernary, Ternary.neg_ofBool]
        rfl⟩
  choose p hp using hknown
  cases op <;> simp only [RangeOp.daysTruth, hp]
  case noneOf => rcases hbool (p .eq) with h | h <;> simp [h, Ternary.neg]
  all_goals exact hbool _

theorem daysTruth_congr {i' : Instant} (op : RangeOp) (h : i.date = i'.date) (days : List Date) :
    op.daysTruth (some i) days = op.daysTruth (some i') days := by
  have hday (comparator : Comparator) : dayTruth (some i) comparator = dayTruth (some i') comparator := by
    funext d
    simp only [dayTruth, Option.map_some, h]
  cases op <;> simp only [RangeOp.daysTruth, hday]

def lastDay : Date := ⟨9999, 12, 31, by decide, by decide, by decide, by decide, by decide, by decide⟩

def eve : Date := ⟨9999, 12, 30, by decide, by decide, by decide, by decide, by decide, by decide⟩

/-- Two moments of one day that a range tells apart. -/
theorem RangeOp.Agrees.same_day {i' : Instant} (h : op.Agrees first rest) (hclock : clock.date.next.isSome)
    (hdate : i.date = i'.date) :
    op.rangeTruth clock (some i) first rest = op.rangeTruth clock (some i') first rest := by
  rw [h clock hclock (some i), h clock hclock (some i'), daysTruth_congr op hdate]

def moment (d : Date) (seconds : ℕ) : Instant := toLex (d, seconds)

theorem RangeOp.Agrees.ne_unknown (h : op.Agrees first rest) (hclock : clock.date.next.isSome)
    (i : Instant) : op.rangeTruth clock (some i) first rest ≠ .unknown := by
  rw [h clock hclock]
  rcases daysTruth_some op i ((first :: rest).map (DayValue.day clock)) with hdays | hdays
  · rw [hdays]
    decide
  · rw [hdays]
    decide

theorem rangeTruth_rest (hop : op.isList = false) (column : Option Instant) :
    op.rangeTruth clock column first rest = op.rangeTruth clock column first [] := by
  cases op <;> first | rfl | cases hop

/-- A range from now on does not stand for a day. -/
theorem not_agrees_now (hop : op.isList = false) : ¬op.Agrees .now rest := by
  intro h
  have hclock : (moment eve 43200).date.next.isSome := by decide
  have hsame (d : Date) (m n : ℕ) := @RangeOp.Agrees.same_day _ (moment d m) _ _ _ (moment d n) h hclock rfl
  simp only [rangeTruth_rest hop] at hsame
  cases op with
  | oneOf | noneOf => cases hop
  | eq | ne | ge | lt => exact absurd (hsame eve 0 43200) (by decide)
  | gt | le => exact absurd (hsame lastDay 0 43200) (by decide)

theorem next_eq_none_unique {d d' : Date} (h : d.next = none) (h' : d'.next = none) : d = d' :=
  le_antisymm (Date.le_of_next h' d) (Date.le_of_next h d')

/-- Where the calendar ends nothing is known to be before the next day. -/
theorem withinTruth_last {time : String} (hd : d.next = none) :
    withinTruth clock (some (.midnight d)) (.date d time) = .unknown := by
  have hstart : instantTruth (some (.midnight d)) .ge (some (.midnight d)) = .yes := by
    rw [(instantTruth_midnight _ d).1]
    simp [Instant.date_midnight, Ternary.ofBool]
  have hstop : (DayValue.date d time).stop clock = none := by simp [DayValue.stop, hd]
  rw [withinTruth, hstop]
  change (instantTruth (some (.midnight d)) .ge (some (.midnight d))).conj _ = _
  rw [hstart]
  rfl

theorem not_agrees_last {time : String} (hop : op.isList = false) (hstop : op.usesStop)
    (hd : d.next = none) : ¬op.Agrees (.date d time) rest := by
  intro h
  have hclock : (moment eve 43200).date.next.isSome := by decide
  have hend : (DayValue.date d time).stop (moment eve 43200) = none := by simp [DayValue.stop, hd]
  apply h.ne_unknown hclock (.midnight d)
  cases op with
  | oneOf | noneOf => cases hop
  | ge | lt => cases hstop
  | eq => exact withinTruth_last hd
  | ne =>
    rw [RangeOp.rangeTruth, withinTruth_last hd]
    rfl
  | gt | le =>
    rw [RangeOp.rangeTruth, hend]
    rfl

theorem not_agrees_list_last {time : String} (hop : op.isList) (hd : d.next = none)
    (hmem : .date d time ∈ first :: rest) : ¬op.Agrees first rest := by
  intro h
  have hclock : (moment eve 0).date.next.isSome := by decide
  have hlast : d = lastDay := next_eq_none_unique hd (by decide)
  have hnone : ∀ a ∈ (first :: rest).map (withinTruth (moment eve 0) (some (.midnight d))),
      a ≠ .yes := by
    intro a ha
    obtain ⟨value, -, rfl⟩ := List.mem_map.mp ha
    cases value with
    | now =>
      rw [hlast]
      decide
    | today =>
      rw [hlast]
      decide
    | date d' time' =>
      cases hd' : d'.next with
      | none =>
        obtain rfl := next_eq_none_unique hd hd'
        rw [withinTruth_last hd]
        decide
      | some e =>
        have hwhole : (DayValue.date d' time').Whole .eq := fun _ ↦ by simp [hd']
        have hne : d ≠ d' := by
          rintro rfl
          rw [hd] at hd'
          cases hd'
        rw [withinTruth_some hwhole rfl hclock]
        simp [DayValue.day, Instant.date_midnight, hne, Ternary.ofBool]
  have hunknown := Ternary.disjs_eq_unknown hnone
    (List.mem_map.mpr ⟨_, hmem, withinTruth_last hd⟩)
  apply h.ne_unknown hclock (.midnight d)
  cases op with
  | oneOf => exact hunknown
  | noneOf =>
    rw [RangeOp.rangeTruth, hunknown]
    rfl
  | eq | ne | gt | ge | lt | le => cases hop

/-- A moment of the last day that the range from now on holds, and one that none holds. -/
theorem not_agrees_list_now (hop : op.isList) (hmem : .now ∈ first :: rest)
    (hall : ∀ value ∈ first :: rest, value = .now ∨ value.Whole .oneOf) : ¬op.Agrees first rest := by
  intro h
  have hclock : (moment eve 43200).date.next.isSome := by decide
  have hwithin (seconds : ℕ) : ∀ value ∈ first :: rest, value ≠ .now →
      withinTruth (moment eve 43200) (some (moment lastDay seconds)) value = .no := by
    intro value hvalue hne
    have hwhole := (hall value hvalue).resolve_left hne
    have hday : lastDay ≠ value.day (moment eve 43200) := by
      cases value with
      | now => exact absurd rfl hne
      | today => decide
      | date d time =>
        intro heq
        have hnext : lastDay.next.isSome := by
          rw [heq]
          exact hwhole rfl
        revert hnext
        decide
    rw [withinTruth_some hwhole rfl hclock, Ternary.ofBool_eq_no_iff]
    exact decide_eq_false hday
  have hin : Ternary.disjs ((first :: rest).map
      (withinTruth (moment eve 43200) (some (moment lastDay 0)))) ≠ .no := by
    intro hno
    have hnow := Ternary.disjs_eq_no_iff.mp hno _ (List.mem_map_of_mem hmem)
    revert hnow
    decide
  have hout : Ternary.disjs ((first :: rest).map
      (withinTruth (moment eve 43200) (some (moment lastDay 43200)))) = .no := by
    apply Ternary.disjs_eq_no_iff.mpr
    intro a ha
    obtain ⟨value, hvalue, rfl⟩ := List.mem_map.mp ha
    by_cases hnow : value = .now
    · rw [hnow]
      decide
    · exact hwithin 43200 value hvalue hnow
  have hsame := @RangeOp.Agrees.same_day _ (moment lastDay 0) _ _ _ (moment lastDay 43200) h hclock rfl
  cases op with
  | oneOf =>
    rw [RangeOp.rangeTruth, RangeOp.rangeTruth, hout] at hsame
    exact hin hsame
  | noneOf =>
    rw [RangeOp.rangeTruth, RangeOp.rangeTruth, hout] at hsame
    exact hin (by rw [← Ternary.neg_neg (Ternary.disjs _), hsame]; rfl)
  | eq | ne | gt | ge | lt | le => cases hop

/-- A value that the first one does not stand for. -/
theorem leads_of_agrees (h : op.Agrees first rest) (hwhole : first.Whole op)
    (hclock : clock.date.next.isSome) (hmem : value ∈ rest) :
    op.Leads (value.day clock) (first.day clock) := by
  by_contra hleads
  have hvalue : value.day clock ∈ (first :: rest).map (DayValue.day clock) :=
    List.mem_map_of_mem (List.mem_cons_of_mem first hmem)
  have hdays {p : Date → Bool} (hp : p (value.day clock)) :
      Ternary.disjs (((first :: rest).map (DayValue.day clock)).map fun d ↦ .ofBool (p d)) = .yes := by
    rw [Ternary.disjs_map_ofBool, Ternary.ofBool_eq_yes_iff]
    exact List.any_eq_true.mpr ⟨_, hvalue, hp⟩
  have hfirst := h clock hclock (some (.midnight (first.day clock)))
  have hother := h clock hclock (some (.midnight (value.day clock)))
  cases op with
  | oneOf | noneOf => exact hleads trivial
  | eq =>
    rw [RangeOp.rangeTruth, RangeOp.daysTruth, withinTruth_some hwhole rfl hclock,
      (dayTruth_some _).1, hdays (decide_eq_true rfl)] at hother
    have hday : value.day clock = first.day clock :=
      of_decide_eq_true (Ternary.ofBool_eq_yes_iff.mp hother)
    exact hleads hday
  | ne =>
    rw [RangeOp.rangeTruth, RangeOp.daysTruth, withinTruth_some hwhole rfl hclock,
      (dayTruth_some _).2.1, hdays (by rw [decide_eq_true_eq]; exact fun h ↦ hleads h.symm)] at hfirst
    simp [Instant.date_midnight, Ternary.ofBool, Ternary.neg] at hfirst
  | gt =>
    rw [RangeOp.rangeTruth, RangeOp.daysTruth, (instantTruth_stop hwhole rfl hclock _).1,
      (dayTruth_some _).2.2.1, hdays (decide_eq_true (not_le.mp hleads))] at hfirst
    simp [Instant.date_midnight, Ternary.ofBool] at hfirst
  | ge =>
    rw [RangeOp.rangeTruth, RangeOp.daysTruth, (instantTruth_start hwhole _).1,
      (dayTruth_some _).2.2.2.1, hdays (decide_eq_true le_rfl)] at hother
    have hday : first.day clock ≤ value.day clock :=
      of_decide_eq_true (Ternary.ofBool_eq_yes_iff.mp hother)
    exact hleads hday
  | lt =>
    rw [RangeOp.rangeTruth, RangeOp.daysTruth, (instantTruth_start hwhole _).2,
      (dayTruth_some _).2.2.2.2.1, hdays (decide_eq_true (not_le.mp hleads))] at hfirst
    simp [Instant.date_midnight, Ternary.ofBool] at hfirst
  | le =>
    rw [RangeOp.rangeTruth, RangeOp.daysTruth, (instantTruth_stop hwhole rfl hclock _).2,
      (dayTruth_some _).2.2.2.2.2, hdays (decide_eq_true le_rfl)] at hother
    have hday : value.day clock ≤ first.day clock :=
      of_decide_eq_true (Ternary.ofBool_eq_yes_iff.mp hother)
    exact hleads hday

theorem whole_of_agrees (h : op.Agrees first rest) (hop : op.isList = false) : first.Whole op := by
  cases first with
  | now => exact absurd h (not_agrees_now hop)
  | today => trivial
  | date d time =>
    intro hstop
    by_contra hnext
    exact not_agrees_last hop hstop (by simpa using hnext) h

theorem agrees_iff : op.Agrees first rest ↔ op.Stands first rest := by
  refine ⟨?_, agrees_of_stands⟩
  intro h
  rw [RangeOp.Stands]
  cases hop : op.isList with
  | false =>
    have hwhole := whole_of_agrees h hop
    exact ⟨hwhole, fun clock hclock value hvalue ↦ leads_of_agrees h hwhole hclock hvalue⟩
  | true =>
    have hdates : ∀ value ∈ first :: rest, value = .now ∨ value.Whole .oneOf := by
      intro value hvalue
      cases value with
      | now => exact .inl rfl
      | today => exact .inr trivial
      | date d time =>
        right
        intro _
        by_contra hnext
        exact not_agrees_list_last hop (by simpa using hnext) hvalue h
    have hnow : .now ∉ first :: rest := fun hmem ↦ not_agrees_list_now hop hmem hdates h
    intro value hvalue
    have hwhole := (hdates value hvalue).resolve_left (by rintro rfl; exact hnow hvalue)
    cases value with
    | now => exact hwhole
    | today => exact hwhole
    | date d time => exact fun _ ↦ hwhole rfl

end Agreement

end ZoneMinder.Filter
