import Mathlib.Data.List.Forall2
import ZoneMinder.CronTab.Schedule

namespace ZoneMinder.CronTab

open Php

/-- Digits, as many as there are, with the number that they are read as. -/
structure Number (text : Text) (n : ℕ) : Prop where
  ne_nil : text ≠ []
  digits : ∀ c ∈ text, c.isDigit = true
  value : Nat.ofDigitChars 10 text 0 = n

/-- `*`, or `n-m` within the range of the field -/
inductive RangeItem (lo hi : ℤ) : Text → Prop
  | star : RangeItem lo hi ['*']
  | range {first last : Text} {n m : ℕ} : Number first n → Number last m → lo ≤ n → n ≤ m →
      m ≤ hi → RangeItem lo hi (first ++ '-' :: last)

/-- `n` within the range of the field -/
inductive NumberItem (lo hi : ℤ) : Text → Prop
  | number {text : Text} {n : ℕ} : Number text n → lo ≤ n → n ≤ hi → NumberItem lo hi text

/-- `/k` after an item of the kind that is given -/
inductive Stepped (item : Text → Prop) : Text → Prop
  | step {text step : Text} {k : ℕ} : item text → Number step k → 1 ≤ k →
      Stepped item (text ++ '/' :: step)

/-- What a field lists, where a step follows a range or a star. -/
inductive Item (lo hi : ℤ) : Text → Prop
  | range {text : Text} : RangeItem lo hi text → Item lo hi text
  | number {text : Text} : NumberItem lo hi text → Item lo hi text
  | step {text : Text} : Stepped (RangeItem lo hi) text → Item lo hi text

/-- The same, where a step follows a single number too. -/
inductive LooseItem (lo hi : ℤ) : Text → Prop
  | item {text : Text} : Item lo hi text → LooseItem lo hi text
  | step {text : Text} : Stepped (NumberItem lo hi) text → LooseItem lo hi text

/-- Five fields, each a list of what is allowed within its range. -/
def Schedule (item : ℤ → ℤ → Text → Prop) (text : Text) : Prop :=
  ∃ fields, Lib.Spaced space text fields ∧
    List.Forall₂ (fun field (lo, hi) ↦ Lib.Listed ',' (item lo hi) field) fields ranges

/-- A schedule but for a step, or several, after a single number. -/
structure StepsNumber (text : Text) : Prop where
  loose : Schedule LooseItem text
  stepped : ∃ fields, Lib.Spaced space text fields ∧ ∃ field ∈ fields.zip ranges,
    ∃ item ∈ field.1.splitOn ',', Stepped (NumberItem field.2.1 field.2.2) item

section Number

variable {text : Text} {n : ℕ}

theorem Number.notMem (h : Number text n) {c : Char} (hc : c.isDigit = false) : c ∉ text :=
  fun hmem ↦ by simp [h.digits c hmem] at hc

/-- `intval` reads the number, as far as an integer goes. -/
theorem Number.intval (h : Number text n) : Php.intval text = min (n : ℤ) (2 ^ 63 - 1) := by
  have htake : text.takeWhile Char.isDigit = text := List.takeWhile_eq_self_iff.mpr h.digits
  rw [Php.intval, htake, ← h.value, Nat.ofDigitChars_eq_foldl]
  simp only [Nat.mul_comm]
  rfl

theorem allDigits_iff (h : '\n' ∉ text) : allDigits text = true ↔ ∃ n, Number text n := by
  have hlast : text.getLast? ≠ some '\n' := fun hlast ↦ h (List.mem_of_getLast? hlast)
  rw [allDigits]
  simp only [if_neg hlast, Bool.and_eq_true, decide_eq_true_eq, List.all_eq_true]
  constructor
  · rintro ⟨hne, hdigits⟩
    exact ⟨_, hne, hdigits, rfl⟩
  · rintro ⟨n, hn⟩
    exact ⟨hn.ne_nil, hn.digits⟩

theorem Number.allDigits (h : Number text n) : Php.allDigits text = true :=
  (allDigits_iff (h.notMem rfl)).mpr ⟨n, h⟩

end Number

section Item

variable {lo hi : ℤ} {item : Text}

theorem NumberItem.notMem (h : NumberItem lo hi item) {c : Char} (hc : c.isDigit = false) :
    c ∉ item := by
  cases h with
  | number hn _ _ => exact hn.notMem hc

theorem RangeItem.notMem (h : RangeItem lo hi item) {c : Char} (hc : c.isDigit = false)
    (hstar : c ≠ '*') (hdash : c ≠ '-') : c ∉ item := by
  cases h with
  | star => simpa using hstar
  | range hn hm _ _ _ => simp [hn.notMem hc, hm.notMem hc, hdash]

theorem RangeItem.not_numberItem (h : RangeItem lo hi item) : ¬NumberItem lo hi item := by
  intro hnumber
  cases h with
  | star => exact hnumber.notMem (c := '*') rfl (by simp)
  | range => exact hnumber.notMem (c := '-') rfl (by simp)

/-- The bound of a field is below what an integer holds, so no number is read as another in it. -/
theorem rangeIsValid_of_rangeItem (hhi : hi < 2 ^ 63 - 1) (h : RangeItem lo hi item) :
    rangeIsValid lo hi item = true := by
  cases h with
  | star => rfl
  | @range first last n m hn hm hlo hnm hle =>
    have hsplit : (first ++ '-' :: last).splitOn '-' = [first, last] :=
      Lib.splitOn_eq_pair.mpr ⟨rfl, hn.notMem rfl, hm.notMem rfl⟩
    have hne : first ++ '-' :: last ≠ ['*'] := by
      intro heq
      have hmem : '-' ∈ ['*'] := by
        rw [← heq]
        simp
      simp at hmem
    rw [rangeIsValid, if_neg hne, if_pos (by simp), hsplit]
    simp only [hn.allDigits, hm.allDigits, hn.intval, hm.intval, Bool.true_and, Bool.not_eq_true',
      Bool.or_eq_false_iff, decide_eq_false_iff_not]
    omega

theorem rangeIsValid_of_numberItem (hhi : hi < 2 ^ 63 - 1) (h : NumberItem lo hi item) :
    rangeIsValid lo hi item = true := by
  have hstar : item ≠ ['*'] := by
    rintro rfl
    exact h.notMem (c := '*') rfl (by simp)
  have hdash : '-' ∉ item := h.notMem rfl
  cases h with
  | number hn hlo hle =>
    rw [rangeIsValid, if_neg hstar, if_neg hdash]
    simp only [hn.allDigits, hn.intval, Bool.true_and, Bool.not_eq_true', Bool.or_eq_false_iff,
      decide_eq_false_iff_not]
    omega

theorem rangeIsValid_iff (hhi : hi < 2 ^ 63 - 1) (hline : '\n' ∉ item) :
    rangeIsValid lo hi item = true ↔ RangeItem lo hi item ∨ NumberItem lo hi item := by
  constructor
  · intro h
    rw [rangeIsValid] at h
    split at h
    case isTrue hstar =>
      rw [hstar]
      exact .inl .star
    case isFalse =>
      split at h
      case isTrue =>
        split at h
        case h_1 first last hsplit =>
          obtain ⟨rfl, -, -⟩ := Lib.splitOn_eq_pair.mp hsplit
          simp only [Bool.and_eq_true, Bool.not_eq_true', Bool.or_eq_false_iff,
            decide_eq_false_iff_not] at h
          obtain ⟨⟨hfirst, hlast⟩, ⟨hlo, hle⟩, horder⟩ := h
          obtain ⟨n, hn⟩ := (allDigits_iff (by simp_all)).mp hfirst
          obtain ⟨m, hm⟩ := (allDigits_iff (by simp_all)).mp hlast
          rw [hn.intval] at hlo horder
          rw [hm.intval] at hle horder
          exact .inl (.range hn hm (by omega) (by omega) (by omega))
        case h_2 => cases h
      case isFalse =>
        simp only [Bool.and_eq_true, Bool.not_eq_true', Bool.or_eq_false_iff,
          decide_eq_false_iff_not] at h
        obtain ⟨hdigits, hlo, hle⟩ := h
        obtain ⟨n, hn⟩ := (allDigits_iff hline).mp hdigits
        rw [hn.intval] at hlo hle
        exact .inr (.number hn (by omega) (by omega))
  · rintro (h | h)
    · exact rangeIsValid_of_rangeItem hhi h
    · exact rangeIsValid_of_numberItem hhi h

theorem slash_notMem (h : RangeItem lo hi item ∨ NumberItem lo hi item) : '/' ∉ item := by
  rcases h with h | h
  · exact h.notMem rfl (by simp) (by simp)
  · exact h.notMem rfl

theorem itemIsValid_of_rangeIsValid (hslash : '/' ∉ item) (h : rangeIsValid lo hi item = true) :
    itemIsValid lo hi item = true := by
  have hne : item ≠ [] := by
    rintro rfl
    cases h
  rw [itemIsValid, if_neg hne, if_neg hslash, h]

theorem Stepped.exists_splitOn {allowed : Text → Prop}
    (hslash : ∀ text, allowed text → '/' ∉ text) (h : Stepped allowed item) :
    ∃ text step k, item.splitOn '/' = [text, step] ∧ allowed text ∧ Number step k ∧ 1 ≤ k := by
  cases h with
  | @step text step k htext hk hpos =>
    exact ⟨text, step, k, Lib.splitOn_eq_pair.mpr ⟨rfl, hslash text htext, hk.notMem rfl⟩, htext,
      hk, hpos⟩

theorem itemIsValid_of_stepped {allowed : Text → Prop}
    (hslash : ∀ text, allowed text → '/' ∉ text)
    (hvalid : ∀ text, allowed text → rangeIsValid lo hi text = true)
    (h : Stepped allowed item) : itemIsValid lo hi item = true := by
  obtain ⟨text, step, k, hsplit, htext, hk, hpos⟩ := h.exists_splitOn hslash
  obtain ⟨rfl, -, -⟩ := Lib.splitOn_eq_pair.mp hsplit
  rw [itemIsValid, if_neg (by simp), if_pos (by simp), hsplit]
  simp only [hk.allDigits, hk.intval, hvalid text htext, Bool.true_and, Bool.and_true,
    Bool.not_eq_true', decide_eq_false_iff_not]
  omega

/-- The code reads the step off first and does not look at what it follows. -/
theorem itemIsValid_iff (hhi : hi < 2 ^ 63 - 1) (hline : '\n' ∉ item) :
    itemIsValid lo hi item = true ↔ LooseItem lo hi item := by
  constructor
  · intro h
    rw [itemIsValid] at h
    split at h
    case isTrue => cases h
    case isFalse =>
      split at h
      case isTrue =>
        split at h
        case h_1 text step hsplit =>
          obtain ⟨rfl, -, -⟩ := Lib.splitOn_eq_pair.mp hsplit
          simp only [Bool.and_eq_true, Bool.not_eq_true', decide_eq_false_iff_not] at h
          obtain ⟨⟨hdigits, hpos⟩, hvalid⟩ := h
          obtain ⟨k, hk⟩ := (allDigits_iff (by simp_all)).mp hdigits
          rw [hk.intval] at hpos
          rcases (rangeIsValid_iff hhi (by simp_all)).mp hvalid with htext | htext
          · exact .item (.step (.step htext hk (by omega)))
          · exact .step (.step htext hk (by omega))
        case h_2 => cases h
      case isFalse =>
        rcases (rangeIsValid_iff hhi hline).mp h with h | h
        · exact .item (.range h)
        · exact .item (.number h)
  · intro h
    cases h with
    | step h =>
      exact itemIsValid_of_stepped (fun _ htext ↦ slash_notMem (.inr htext))
        (fun _ htext ↦ rangeIsValid_of_numberItem hhi htext) h
    | item h =>
      cases h with
      | range h =>
        exact itemIsValid_of_rangeIsValid (slash_notMem (.inl h)) (rangeIsValid_of_rangeItem hhi h)
      | number h =>
        exact itemIsValid_of_rangeIsValid (slash_notMem (.inr h)) (rangeIsValid_of_numberItem hhi h)
      | step h =>
        exact itemIsValid_of_stepped (fun _ htext ↦ slash_notMem (.inl htext))
          (fun _ htext ↦ rangeIsValid_of_rangeItem hhi htext) h

/-- What a step follows can be told from the item. -/
theorem Stepped.not_item (h : Stepped (NumberItem lo hi) item) : ¬Item lo hi item := by
  intro hitem
  obtain ⟨text, step, -, hsplit, hnumber, -, -⟩ :=
    h.exists_splitOn fun _ htext ↦ slash_notMem (.inr htext)
  have hmem : '/' ∈ item := by
    rw [(Lib.splitOn_eq_pair.mp hsplit).1]
    simp
  cases hitem with
  | range hrange => exact slash_notMem (.inl hrange) hmem
  | number hnumber => exact slash_notMem (.inr hnumber) hmem
  | step hstep =>
    obtain ⟨text', step', -, hsplit', hrange, -, -⟩ :=
      hstep.exists_splitOn fun _ htext ↦ slash_notMem (.inl htext)
    rw [hsplit] at hsplit'
    obtain ⟨rfl, -⟩ := List.cons.inj hsplit'
    exact hrange.not_numberItem hnumber

theorem Stepped.comma_notMem {allowed : Text → Prop}
    (hallowed : ∀ text, allowed text → ',' ∉ text) (h : Stepped allowed item) : ',' ∉ item := by
  cases h with
  | step htext hk _ => simp [hallowed _ htext, hk.notMem (c := ',') rfl]

theorem Item.comma_notMem (h : Item lo hi item) : ',' ∉ item := by
  cases h with
  | range h => exact h.notMem rfl (by simp) (by simp)
  | number h => exact h.notMem rfl
  | step h => exact h.comma_notMem fun _ htext ↦ htext.notMem rfl (by simp) (by simp)

theorem LooseItem.comma_notMem (h : LooseItem lo hi item) : ',' ∉ item := by
  cases h with
  | item h => exact h.comma_notMem
  | step h => exact h.comma_notMem fun _ htext ↦ htext.notMem rfl

end Item

section Schedule

variable {text spec : Text}

/-- The fields and their items are the ones that the code splits the text into. -/
theorem schedule_iff {item : ℤ → ℤ → Text → Prop}
    (hcomma : ∀ lo hi w, item lo hi w → ',' ∉ w) :
    Schedule item text ↔
      List.Forall₂ (fun field (lo, hi) ↦ ∀ w ∈ field.splitOn ',', item lo hi w)
        (Lib.pieces space text) ranges := by
  have hlisted : ∀ (field : Text) (range : ℤ × ℤ),
      Lib.Listed ',' (item range.1 range.2) field ↔
        ∀ w ∈ field.splitOn ',', item range.1 range.2 w :=
    fun field range ↦ Lib.listed_iff (hcomma range.1 range.2)
  constructor
  · rintro ⟨fields, hspaced, hfields⟩
    rw [Lib.spaced_iff.mp hspaced]
    exact hfields.imp fun field range ↦ (hlisted field range).mp
  · intro h
    exact ⟨_, Lib.spaced_iff.mpr rfl, h.imp fun field range ↦ (hlisted field range).mpr⟩

theorem ranges_below {lo hi : ℤ} (h : (lo, hi) ∈ ranges) : hi < 2 ^ 63 - 1 := by
  have hall : ∀ range ∈ ranges, range.2 < 2 ^ 63 - 1 := by simp [ranges]
  exact hall (lo, hi) h

theorem cronScheduleIsValid_iff (h : ∀ c ∈ spec, c ∉ ['\r', '\n', '%']) :
    cronScheduleIsValid spec = true ↔ Schedule LooseItem (trim spec) := by
  have hplain : spec.all (fun c ↦ c ∉ ['\r', '\n', '%']) = true := by
    simpa only [List.all_eq_true, decide_eq_true_eq] using h
  have hlen : ranges.length = 5 := rfl
  rw [schedule_iff fun _ _ _ hw ↦ hw.comma_notMem, List.forall₂_iff_zip, cronScheduleIsValid,
    hplain, Bool.true_and, Bool.and_eq_true, decide_eq_true_eq, List.all_eq_true, hlen,
    scheduleFields]
  refine and_congr_right fun _ ↦ ?_
  have hitem : ∀ {field : Text} {lo hi : ℤ},
      (field, lo, hi) ∈ (Lib.pieces space (trim spec)).zip ranges →
        ∀ w ∈ field.splitOn ',', (itemIsValid lo hi w = true ↔ LooseItem lo hi w) := by
    intro field lo hi hmem w hw
    obtain ⟨hfield, hrange⟩ := List.of_mem_zip hmem
    refine itemIsValid_iff (ranges_below hrange) fun hline ↦ ?_
    rw [List.splitOn_eq_splitOnP] at hw
    have hspace := (Lib.mem_pieces hfield).2 '\n' (Lib.mem_field hw hline).1
    cases hspace
  constructor
  · intro hall field range hmem w hw
    exact (hitem hmem w hw).mp (List.all_eq_true.mp (hall _ hmem) w hw)
  · rintro hall ⟨field, range⟩ hmem
    exact List.all_eq_true.mpr fun w hw ↦ (hitem hmem w hw).mpr (hall hmem w hw)

theorem Schedule.loose (h : Schedule Item text) : Schedule LooseItem text := by
  rw [schedule_iff fun _ _ _ hw ↦ hw.comma_notMem] at h ⊢
  exact h.imp fun _ _ hitems w hw ↦ .item (hitems w hw)

theorem StepsNumber.not_schedule (h : StepsNumber text) : ¬Schedule Item text := by
  obtain ⟨fields, hspaced, range, hmem, item, hitem, hstep⟩ := h.stepped
  obtain rfl := Lib.spaced_iff.mp hspaced
  rw [schedule_iff fun _ _ _ hw ↦ hw.comma_notMem, List.forall₂_iff_zip]
  intro hall
  exact hstep.not_item (hall.2 hmem item hitem)

theorem Schedule.of_not_stepsNumber (h : Schedule LooseItem text) (hstep : ¬StepsNumber text) :
    Schedule Item text := by
  have hnone : ∀ range ∈ (Lib.pieces space text).zip ranges, ∀ item ∈ range.1.splitOn ',',
      ¬Stepped (NumberItem range.2.1 range.2.2) item := by
    intro range hmem item hitem hstepped
    exact hstep ⟨h, _, Lib.spaced_iff.mpr rfl, range, hmem, item, hitem, hstepped⟩
  rw [schedule_iff fun _ _ _ hw ↦ hw.comma_notMem, List.forall₂_iff_zip] at h ⊢
  refine ⟨h.1, fun {field range} hmem item hitem ↦ ?_⟩
  cases h.2 hmem item hitem with
  | item hitem => exact hitem
  | step hstepped => exact absurd hstepped (hnone (field, range) hmem item hitem)

/-- The code accepts its grammar and, beyond it, a step after a single number. -/
theorem cronScheduleIsValid_grammar (h : ∀ c ∈ spec, c ∉ ['\r', '\n', '%']) :
    (cronScheduleIsValid spec = true ↔ Schedule Item (trim spec)) ↔ ¬StepsNumber (trim spec) := by
  rw [cronScheduleIsValid_iff h]
  constructor
  · intro hiff hstep
    exact hstep.not_schedule (hiff.mp hstep.loose)
  · intro hstep
    exact ⟨fun hloose ↦ hloose.of_not_stepsNumber hstep, Schedule.loose⟩

theorem cronScheduleIsValid_grammar_range :
    (cronScheduleIsValid "0-30/10 8,12 * * 1-5".toList = true ↔
      Schedule Item (trim "0-30/10 8,12 * * 1-5".toList)) ↔
        ¬StepsNumber (trim "0-30/10 8,12 * * 1-5".toList) :=
  cronScheduleIsValid_grammar (by simp)

theorem steps_number : StepsNumber (trim "5/2 * * * *".toList) where
  loose := (cronScheduleIsValid_iff (by simp)).mp (by decide +kernel)
  stepped := by
    have hfive : Number ['5'] 5 := ⟨by simp, by simp, rfl⟩
    have htwo : Number ['2'] 2 := ⟨by simp, by simp, rfl⟩
    have hstep : Stepped (NumberItem 0 59) ['5', '/', '2'] :=
      Stepped.step (NumberItem.number hfive (by decide) (by decide)) htwo (by decide)
    exact ⟨[['5', '/', '2'], ['*'], ['*'], ['*'], ['*']], Lib.spaced_iff.mpr (by decide +kernel),
      (['5', '/', '2'], 0, 59), by simp [ranges], ['5', '/', '2'], by decide, hstep⟩

theorem not_cronScheduleIsValid_grammar :
    ¬(cronScheduleIsValid "5/2 * * * *".toList = true ↔
      Schedule Item (trim "5/2 * * * *".toList)) := by
  rw [cronScheduleIsValid_iff (by simp)]
  intro hiff
  exact steps_number.not_schedule (hiff.mp steps_number.loose)

end Schedule
end ZoneMinder.CronTab
