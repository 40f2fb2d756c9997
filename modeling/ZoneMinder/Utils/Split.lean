import ZoneMinder.Lib.Fields
import ZoneMinder.Lib.Search

namespace ZoneMinder.Utils

open Lib

variable {delim : Char → Bool} {limit n : ℕ} {str u rest : List Char} {tokens : List (List Char)}

/-- The rounds of `Split` from one position on. The result is `none` where `substr` throws. -/
def splitFrom (delim : Char → Bool) (limit : ℕ) (str : List Char) (tokens : List (List Char))
    (start : ℕ) : Option (List (List Char)) :=
  match _hstop : findFrom delim str start with
  | none => (slice str start none).map fun token ↦ tokens ++ [token]
  | some stop =>
    (if 0 < stop then (slice str start (some stop)).map fun token ↦ tokens ++ [token]
      else some tokens).bind fun tokens ↦
    match _hnext : findFrom (fun c ↦ !delim c) str stop with
    | none => if limit ≠ 0 ∧ tokens.length = limit - 1 then none else some tokens
    | some next =>
      if limit ≠ 0 ∧ tokens.length = limit - 1 then
        (slice str next none).map fun token ↦ tokens ++ [token]
      else splitFrom delim limit str tokens next
termination_by str.length - start
decreasing_by
  obtain ⟨hle, a, ha, hdelim⟩ := exists_of_findFrom _hstop
  obtain ⟨hle', b, hb, hplain⟩ := exists_of_findFrom _hnext
  have hlt : next < str.length := (List.getElem?_eq_some_iff.mp hb).1
  have hne : stop ≠ next := by
    rintro rfl
    rw [ha] at hb
    obtain rfl := Option.some.inj hb
    simp [hdelim] at hplain
  omega

def split (str delim : List Char) (limit : ℕ) : Option (List (List Char)) :=
  splitFrom (fun c ↦ c ∈ delim) limit str [] 0

/-- The text from the start of a run on, the runs counted from zero. -/
def fromRun (delim : Char → Bool) : ℕ → List Char → List Char
  | 0, str => str.dropWhile delim
  | n + 1, str => fromRun delim n ((str.dropWhile delim).dropWhile (fun c ↦ !delim c))

/-- The runs of a text; where there are more than `limit`, the last entry is what is left. -/
def words (delim : Char → Bool) (limit : ℕ) (str : List Char) : List (List Char) :=
  if limit = 0 ∨ (pieces delim str).length ≤ limit then pieces delim str
  else (pieces delim str).take (limit - 1) ++ [fromRun delim (limit - 1) str]

/-- The text ends in a delimiter. -/
def Trailing (delim : Char → Bool) (str : List Char) : Prop :=
  ∃ c ∈ str.getLast?, delim c

instance (delim : Char → Bool) (str : List Char) : Decidable (Trailing delim str) :=
  decidable_of_iff (str.getLast?.any delim) (Option.any_eq_true _ _)

theorem splitFrom_of_none {start : ℕ} (h : findFrom delim str start = none) :
    splitFrom delim limit str tokens start =
      (slice str start none).map fun token ↦ tokens ++ [token] := by
  rw [splitFrom]
  split
  next => rfl
  next stop hstop =>
    rw [h] at hstop
    cases hstop

/-- One round that finds a delimiter. -/
theorem splitFrom_of_some {start stop : ℕ} {tokens' : List (List Char)}
    (h : findFrom delim str start = some stop)
    (htokens : (if 0 < stop then (slice str start (some stop)).map fun token ↦ tokens ++ [token]
      else some tokens) = some tokens') :
    splitFrom delim limit str tokens start =
      if limit ≠ 0 ∧ tokens'.length = limit - 1 then
        (findFrom (fun c ↦ !delim c) str stop).bind fun next ↦
          (slice str next none).map fun token ↦ tokens' ++ [token]
      else
        match findFrom (fun c ↦ !delim c) str stop with
        | none => some tokens'
        | some next => splitFrom delim limit str tokens' next := by
  rw [splitFrom]
  split
  next hnone =>
    rw [h] at hnone
    cases hnone
  next stop' hstop =>
    rw [h] at hstop
    obtain rfl := Option.some.inj hstop
    rw [htokens, Option.bind_some]
    split
    next hnext => rw [hnext, Option.bind_none]
    next next hnext => rw [hnext, Option.bind_some]

/-- A text that starts with a run: the run, the delimiters after it and what follows them. -/
structure FirstRun (delim : Char → Bool) (str word gap next : List Char) : Prop where
  eq : str = word ++ gap ++ next
  word_ne_nil : word ≠ []
  word_plain : ∀ c ∈ word, delim c = false
  gap_delim : ∀ c ∈ gap, delim c = true
  next_head : ∀ c ∈ next.head?, delim c = false
  next_nil : gap = [] → next = []

namespace FirstRun

variable {word gap next : List Char}

theorem exists_of_head (hne : str ≠ []) (hhead : ∀ c ∈ str.head?, delim c = false) :
    ∃ word gap next, FirstRun delim str word gap next := by
  refine ⟨str.takeWhile (fun c ↦ !delim c), (str.dropWhile (fun c ↦ !delim c)).takeWhile delim,
    (str.dropWhile (fun c ↦ !delim c)).dropWhile delim, ?_, takeWhile_ne_nil hne hhead, ?_, ?_, ?_,
    ?_⟩
  · rw [List.append_assoc, List.takeWhile_append_dropWhile, List.takeWhile_append_dropWhile]
  · intro c hc
    simpa using List.mem_takeWhile_imp hc
  · intro c hc
    exact List.mem_takeWhile_imp hc
  · intro c hc
    exact head_dropWhile hc
  · intro hgap
    cases hdrop : str.dropWhile (fun c ↦ !delim c) with
    | nil => rfl
    | cons c rest =>
      have hc : (!delim c) = false := head_dropWhile (l := str) (by rw [hdrop]; rfl)
      rw [hdrop, List.takeWhile_cons_of_pos (by simpa using hc)] at hgap
      cases hgap

variable (h : FirstRun delim str word gap next)
include h

theorem takeWhile_eq : str.takeWhile (fun c ↦ !delim c) = word := by
  have hword : ∀ c ∈ word, (!delim c) = true := fun c hc ↦ by simp [h.word_plain c hc]
  rw [h.eq, List.append_assoc, List.takeWhile_append_of_pos hword]
  cases hgap : gap with
  | nil => simp [h.next_nil hgap]
  | cons c gap => simp [h.gap_delim c (by simp [hgap])]

theorem dropWhile_eq : str.dropWhile (fun c ↦ !delim c) = gap ++ next := by
  have hword : ∀ c ∈ word, (!delim c) = true := fun c hc ↦ by simp [h.word_plain c hc]
  rw [h.eq, List.append_assoc, List.dropWhile_append_of_pos hword]
  cases hgap : gap with
  | nil => simp [h.next_nil hgap]
  | cons c gap => simp [h.gap_delim c (by simp [hgap])]

theorem dropWhile_gap : (gap ++ next).dropWhile delim = next := by
  rw [List.dropWhile_append_of_pos h.gap_delim]
  cases hnext : next with
  | nil => rfl
  | cons c next => simp [h.next_head c (by rw [hnext]; rfl)]

theorem length_lt : next.length < str.length := by
  have hlen := List.length_pos_iff.mpr h.word_ne_nil
  rw [h.eq, List.length_append, List.length_append]
  omega

theorem pieces_eq : pieces delim str = word :: pieces delim next := by
  rw [← h.dropWhile_gap, pieces_dropWhile, h.eq, List.append_assoc]
  cases hgap : gap with
  | nil => rw [h.next_nil hgap, List.append_nil, List.append_nil, pieces_of_none h.word_plain,
      if_neg h.word_ne_nil, pieces_of_none (by simp), if_pos rfl]
  | cons c gap =>
    have hc : delim c := h.gap_delim c (by simp [hgap])
    rw [List.cons_append, pieces_append_cons h.word_plain hc, if_neg h.word_ne_nil,
      pieces_cons_of_pos hc]
    rfl

theorem fromRun_succ (n : ℕ) : fromRun delim (n + 1) str = fromRun delim n next := by
  have hdrop : str.dropWhile delim = str := by
    obtain ⟨c, word', hword⟩ := List.exists_cons_of_ne_nil h.word_ne_nil
    rw [h.eq]
    simp [hword, h.word_plain c (by simp [hword])]
  have hskip : ∀ m, fromRun delim m (gap ++ next) = fromRun delim m next := by
    intro m
    cases m <;> rw [fromRun, fromRun, List.dropWhile_append_of_pos h.gap_delim]
  rw [fromRun, hdrop, h.dropWhile_eq, hskip]

theorem trailing_iff : Trailing delim str ↔ if next = [] then gap ≠ [] else Trailing delim next := by
  unfold Trailing
  split_ifs with hnext
  · rw [h.eq, hnext, List.append_nil]
    constructor
    · rintro ⟨c, hc, hdelim⟩ hgap
      rw [hgap, List.append_nil] at hc
      simp [h.word_plain c (List.mem_of_mem_getLast? hc)] at hdelim
    · intro hgap
      refine ⟨gap.getLast hgap, ?_, h.gap_delim _ (List.getLast_mem hgap)⟩
      rw [List.getLast?_append_of_ne_nil _ hgap]
      exact List.getLast?_eq_some_getLast hgap
  · rw [h.eq, List.getLast?_append_of_ne_nil _ hnext]

theorem findFrom_stop (u : List Char) (hgap : gap ≠ []) :
    findFrom delim (u ++ str) u.length = some (u.length + word.length) := by
  obtain ⟨c, gap', hcons⟩ := List.exists_cons_of_ne_nil hgap
  have hstr : u ++ str = u ++ word ++ c :: (gap' ++ next) := by simp [h.eq, hcons]
  rw [hstr]
  exact findFrom_append h.word_plain (h.gap_delim c (by simp [hcons]))

theorem findFrom_next (u : List Char) :
    findFrom (fun c ↦ !delim c) (u ++ str) (u.length + word.length) =
      if next = [] then none else some (u ++ word ++ gap).length := by
  have hgap : ∀ c ∈ gap, (!delim c) = false := fun c hc ↦ by simp [h.gap_delim c hc]
  rw [h.eq, ← List.length_append]
  split_ifs with hnext
  · have hstr : u ++ (word ++ gap ++ next) = (u ++ word) ++ gap := by simp [hnext]
    rw [hstr]
    exact findFrom_eq_none.mpr hgap
  · obtain ⟨c, next', hcons⟩ := List.exists_cons_of_ne_nil hnext
    have hc : (!delim c) = true := by simp [h.next_head c (by simp [hcons])]
    have hstr : u ++ (word ++ gap ++ next) = (u ++ word) ++ gap ++ c :: next' := by simp [hcons]
    rw [hstr, findFrom_append hgap hc, ← List.length_append]

end FirstRun

/-- The rounds from the start of a run on. The text may end in a delimiter with no run left for
the last entry, or with delimiters in it. -/
theorem splitFrom_run (hne : str ≠ []) (hhead : ∀ c ∈ str.head?, delim c = false)
    (hroom : limit = 0 ∨ tokens.length + 1 < limit) :
    splitFrom delim limit (u ++ str) tokens u.length =
      if limit = 0 ∨ tokens.length + (pieces delim str).length + 1 < limit ∨
          tokens.length + (pieces delim str).length + 1 = limit ∧ ¬Trailing delim str then
        some (tokens ++ pieces delim str)
      else if tokens.length + (pieces delim str).length + 1 = limit then none
      else some (tokens ++ (pieces delim str).take (limit - 1 - tokens.length) ++
        [fromRun delim (limit - 1 - tokens.length) str]) := by
  induction hn : str.length using Nat.strong_induction_on generalizing u tokens str with
  | _ n ih =>
    obtain ⟨word, gap, next, h⟩ := FirstRun.exists_of_head hne hhead
    have hnext := h.trailing_iff
    by_cases hgap : gap = []
    · obtain rfl : next = [] := h.next_nil hgap
      obtain rfl : str = word := by simpa [hgap] using h.eq
      have hpieces : pieces delim str = [str] := by rw [pieces_of_none h.word_plain, if_neg hne]
      rw [splitFrom_of_none (findFrom_eq_none.mpr h.word_plain), slice_none_append, hpieces,
        if_pos]
      · rfl
      · simp only [if_true, hgap, ne_eq, not_true] at hnext
        simp only [List.length_singleton, hnext, not_false_eq_true, and_true]
        omega
    · have hslice : slice (u ++ str) u.length (some (u.length + word.length)) = some word := by
        rw [h.eq, List.append_assoc, ← List.append_assoc]
        exact slice_some_append
      have hpos : 0 < u.length + word.length :=
        Nat.add_pos_right _ (List.length_pos_iff.mpr h.word_ne_nil)
      have htokens : (if 0 < u.length + word.length then
          (slice (u ++ str) u.length (some (u.length + word.length))).map fun token ↦
            tokens ++ [token]
          else some tokens) = some (tokens ++ [word]) := by
        rw [if_pos hpos, hslice]
        rfl
      rw [splitFrom_of_some (h.findFrom_stop u hgap) htokens, h.findFrom_next, h.pieces_eq,
        List.length_append, List.length_singleton]
      by_cases hnil : next = []
      · have hpieces : pieces delim next = [] := by rw [hnil]; rfl
        have htrailing : Trailing delim str := by rw [hnext, if_pos hnil]; exact hgap
        simp only [if_pos hnil, hpieces, List.length_singleton, htrailing, not_true, and_false,
          or_false, Option.bind_none]
        by_cases hlast : tokens.length + 1 + 1 = limit
        · rw [if_pos (by omega), if_neg (by omega), if_pos hlast]
        · rw [if_neg (by omega), if_pos (by omega)]
      · have hmore : (pieces delim next).length ≠ 0 := by
          rw [pieces_eq_cons hnil h.next_head]
          exact Nat.succ_ne_zero _
        have hstr : u ++ str = (u ++ word ++ gap) ++ next := by simp [h.eq]
        rw [if_neg hnil] at hnext
        simp only [if_neg hnil, List.length_cons]
        by_cases hlast : tokens.length + 1 + 1 = limit
        · have hdrop : next.dropWhile delim = next := by
            obtain ⟨c, next', hcons⟩ := List.exists_cons_of_ne_nil hnil
            rw [hcons, List.dropWhile_cons_of_neg (by simp [h.next_head c (by simp [hcons])])]
          have hroom' : limit - 1 - tokens.length = 0 + 1 := by omega
          rw [if_pos (by omega), if_neg (by omega), if_neg (by omega), hroom', h.fromRun_succ,
            fromRun, hdrop, hstr, Option.bind_some, slice_none_append]
          simp
        · have hroom' : limit = 0 ∨ (tokens ++ [word]).length + 1 < limit := by
            rw [List.length_append, List.length_singleton]
            omega
          rw [if_neg (by omega), hstr, ih next.length (hn ▸ h.length_lt) hnil h.next_head hroom' rfl,
            List.length_append, List.length_singleton]
          have hsum : tokens.length + 1 + (pieces delim next).length + 1 =
              tokens.length + ((pieces delim next).length + 1) + 1 := by omega
          rw [hsum]
          by_cases hfits : limit = 0 ∨
              tokens.length + ((pieces delim next).length + 1) + 1 < limit ∨
              tokens.length + ((pieces delim next).length + 1) + 1 = limit ∧ ¬Trailing delim next
          · rw [if_pos hfits, if_pos (by rwa [hnext])]
            simp
          · have hfits' := hfits
            rw [← hnext] at hfits'
            have hleft : limit - 1 - tokens.length = limit - 1 - (tokens.length + 1) + 1 := by
              omega
            rw [if_neg hfits, if_neg hfits', hleft, h.fromRun_succ, List.take_succ_cons]
            simp

theorem findFrom_not (delim : Char → Bool) (str : List Char) :
    findFrom (fun c ↦ !delim c) str 0 =
      if str.dropWhile delim = [] then none else some (str.takeWhile delim).length := by
  have hgap : ∀ c ∈ str.takeWhile delim, (!delim c) = false :=
    fun c hc ↦ by simp [List.mem_takeWhile_imp hc]
  have hstr := List.takeWhile_append_dropWhile (p := delim) (l := str)
  split_ifs with hnil
  · rw [hnil, List.append_nil] at hstr
    rw [hstr] at hgap
    exact findFrom_eq_none (u := []).mpr hgap
  · obtain ⟨c, next, hcons⟩ := List.exists_cons_of_ne_nil hnil
    have hc : (!delim c) = true := by simp [head_dropWhile (l := str) (by rw [hcons]; rfl)]
    have hfind := findFrom_append (u := []) (w := next) hgap hc
    rwa [List.nil_append, ← hcons, hstr, List.length_nil, Nat.zero_add] at hfind

theorem fromRun_dropWhile (n : ℕ) (str : List Char) :
    fromRun delim n (str.dropWhile delim) = fromRun delim n str := by
  have hidem : (str.dropWhile delim).dropWhile delim = str.dropWhile delim := by
    cases hdrop : str.dropWhile delim with
    | nil => rfl
    | cons c rest =>
      rw [List.dropWhile_cons_of_neg (by simp [head_dropWhile (l := str) (by rw [hdrop]; rfl)])]
  cases n <;> rw [fromRun, fromRun, hidem]

theorem trailing_dropWhile (h : str.dropWhile delim ≠ []) :
    Trailing delim (str.dropWhile delim) ↔ Trailing delim str := by
  unfold Trailing
  conv_rhs => rw [← List.takeWhile_append_dropWhile (p := delim) (l := str),
    List.getLast?_append_of_ne_nil _ h]

/-- What `Split` gives for every text that is not empty, whatever it starts with. -/
theorem splitFrom_eq (hne : str ≠ []) (hlimit : limit ≠ 1) :
    splitFrom delim limit str [] 0 =
      if limit = 0 ∨ (pieces delim str).length + 1 < limit ∨
          (pieces delim str).length + 1 = limit ∧ ¬Trailing delim str then
        some (pieces delim str)
      else if (pieces delim str).length + 1 = limit then none
      else some ((pieces delim str).take (limit - 1) ++ [fromRun delim (limit - 1) str]) := by
  have hroom : limit = 0 ∨ ([] : List (List Char)).length + 1 < limit := by
    rw [List.length_nil]
    omega
  by_cases hhead : ∀ c ∈ str.head?, delim c = false
  · have hrun := @splitFrom_run delim limit str [] [] hne hhead hroom
    simpa using hrun
  · obtain ⟨c, rest, rfl⟩ := List.exists_cons_of_ne_nil hne
    have hc : delim c = true := by simpa using hhead
    have hfirst : findFrom delim (c :: rest) 0 = some 0 := by
      simp [findFrom, List.findIdx?_cons, hc]
    rw [splitFrom_of_some hfirst (if_neg (Nat.lt_irrefl 0)), if_neg (by
      rintro ⟨hzero, hone⟩
      rw [List.length_nil] at hone
      omega), findFrom_not, ← pieces_dropWhile]
    by_cases hnil : (c :: rest).dropWhile delim = []
    · have hpieces : pieces delim [] = [] := rfl
      rw [if_pos hnil, hnil, hpieces, if_pos (by rw [List.length_nil]; omega)]
    · have hstr : (c :: rest).takeWhile delim ++ (c :: rest).dropWhile delim = c :: rest :=
        List.takeWhile_append_dropWhile
      have hskip : fromRun delim (limit - 1) ((c :: rest).dropWhile delim) =
          fromRun delim (limit - 1) (c :: rest) := fromRun_dropWhile (limit - 1) (c :: rest)
      have hrun := @splitFrom_run delim limit _ ((c :: rest).takeWhile delim) [] hnil
        (fun d hd ↦ head_dropWhile hd) hroom
      rw [hstr, List.length_nil, Nat.zero_add, Nat.sub_zero, hskip] at hrun
      rw [if_neg hnil]
      simpa [trailing_dropWhile hnil] using hrun

theorem exists_firstRun (h : (pieces delim str).length ≠ 0) :
    ∃ word gap next, FirstRun delim (str.dropWhile delim) word gap next := by
  refine FirstRun.exists_of_head ?_ fun c hc ↦ head_dropWhile hc
  intro hnil
  rw [← pieces_dropWhile, hnil] at h
  exact h rfl

/-- The last entry is the last run, unless there are delimiters after it. -/
theorem take_append_fromRun (h : (pieces delim str).length = n + 1) :
    (pieces delim str).take n ++ [fromRun delim n str] = pieces delim str ↔
      ¬Trailing delim str := by
  induction n generalizing str with
  | zero =>
    obtain ⟨word, gap, next, hrun⟩ := exists_firstRun (by omega : (pieces delim str).length ≠ 0)
    have hpieces := hrun.pieces_eq
    rw [pieces_dropWhile] at hpieces
    have hnil : next = [] := by
      by_contra hnil
      rw [hpieces, pieces_eq_cons hnil hrun.next_head] at h
      simp at h
    have hnext := hrun.trailing_iff
    have hstr := hrun.eq
    rw [if_pos hnil, trailing_dropWhile (by simp [hstr, hrun.word_ne_nil])] at hnext
    rw [hpieces, hnext, fromRun, hstr, hnil]
    simp [pieces]
  | succ n ih =>
    obtain ⟨word, gap, next, hrun⟩ := exists_firstRun (by omega : (pieces delim str).length ≠ 0)
    have hpieces := hrun.pieces_eq
    rw [pieces_dropWhile] at hpieces
    rw [hpieces, List.length_cons, Nat.add_right_cancel_iff] at h
    have hnil : next ≠ [] := by
      rintro rfl
      simp [pieces] at h
    have hnext := hrun.trailing_iff
    rw [if_neg hnil, trailing_dropWhile (by simp [hrun.eq, hnil])] at hnext
    rw [hpieces, ← fromRun_dropWhile, hrun.fromRun_succ, hnext, ← ih h, List.take_succ_cons,
      List.cons_append, List.cons.injEq]
    simp

/-- The runs come out in order, and no more entries than the limit. -/
def YieldsWords (str delim : List Char) (limit : ℕ) : Prop :=
  ∃ tokens, split str delim limit = some tokens ∧ tokens = words (fun c ↦ c ∈ delim) limit str ∧
    (limit ≠ 0 → tokens.length ≤ limit)

theorem length_words_le (hlimit : limit ≠ 0) : (words delim limit str).length ≤ limit := by
  unfold words
  split_ifs with h
  · omega
  · rw [List.length_append, List.length_singleton, List.length_take]
    omega

/-- Delimiters at the end matter where the limit is reached with the last run or right after it. -/
theorem yieldsWords_iff {str delim : List Char} (hne : str ≠ []) (hlimit : limit ≠ 1) :
    YieldsWords str delim limit ↔
      limit = 0 ∨ ¬Trailing (fun c ↦ c ∈ delim) str ∨
        (pieces (fun c ↦ c ∈ delim) str).length + 1 ≠ limit ∧
          (pieces (fun c ↦ c ∈ delim) str).length ≠ limit := by
  have hyields : YieldsWords str delim limit ↔
      split str delim limit = some (words (fun c ↦ c ∈ delim) limit str) := by
    constructor
    · rintro ⟨tokens, htokens, rfl, -⟩
      exact htokens
    · intro h
      exact ⟨_, h, rfl, fun hlimit ↦ length_words_le hlimit⟩
  rw [hyields, split, splitFrom_eq hne hlimit, words]
  by_cases hzero : limit = 0
  · simp [hzero]
  obtain hless | hone | hall | hmore :
      (pieces (fun c ↦ decide (c ∈ delim)) str).length + 1 < limit ∨
        (pieces (fun c ↦ decide (c ∈ delim)) str).length + 1 = limit ∨
        (pieces (fun c ↦ decide (c ∈ delim)) str).length = limit ∨
        limit < (pieces (fun c ↦ decide (c ∈ delim)) str).length := by omega
  · rw [if_pos (.inr (.inl hless)), if_pos (by omega)]
    simp only [true_iff]
    omega
  · by_cases htrailing : Trailing (fun c ↦ decide (c ∈ delim)) str
    · simp [hzero, hone, htrailing]
    · rw [if_pos (.inr (.inr ⟨hone, htrailing⟩)), if_pos (by omega)]
      simp [htrailing]
  · have hlast := @take_append_fromRun (fun c ↦ c ∈ delim) (limit - 1) str (by omega)
    rw [if_neg (by omega), if_neg (by omega), if_pos (by omega), Option.some.injEq, hlast]
    simp [hzero, hall]
  · rw [if_neg (by omega), if_neg (by omega), if_neg (by omega)]
    simp only [true_iff]
    omega

theorem not_yieldsWords : ¬YieldsWords "a ".toList " ".toList 2 := by
  rintro ⟨tokens, htokens, -⟩
  have hthrows : split "a ".toList " ".toList 2 = none := by decide +kernel
  rw [hthrows] at htokens
  cases htokens

theorem yieldsWords_limited :
    YieldsWords "a b c ".toList " ".toList 2 :=
  (yieldsWords_iff (by decide) (by decide)).mpr (by decide)

end ZoneMinder.Utils
