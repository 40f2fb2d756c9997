import ZoneMinder.ZmConf.Parsers

namespace ZoneMinder.ZmConf

open Lib

variable {line name value rest u v b : Line}

def edge (c : Char) : Bool := blank c || quote c

def body (value : Line) : Line := (value.dropWhile blank).dropWhile quote

/-- A value of which both patterns trim the same, but for a quote after blanks at the front: no
vertical tab or form feed stands at its ends, and of the blanks and quotes that end it the quotes
come first. -/
structure Plain (value : Line) : Prop where
  front : ∀ c ∈ (value.dropWhile blank).head?, Php.space c = false
  back : ∀ c ∈ ((body value).rtakeWhile edge).dropWhile quote, blank c
  last : ∀ c ∈ ((body value).rdropWhile edge).getLast?, Php.space c →
    ∃ d ∈ ((body value).rtakeWhile edge).head?, quote d

/-- A value that both patterns trim alike: it is plain, and it does not begin with blanks and then a
quote, unless there is nothing else. -/
structure Tidy (value : Line) : Prop extends Plain value where
  opening : (∃ c ∈ value.head?, blank c) → (∃ c ∈ (value.dropWhile blank).head?, quote c) →
    ∀ c ∈ value, edge c

def daemonValue (value : Line) : Line := Daemon.skip (value.rdropWhile edge)

def scriptValue (value : Line) : Line :=
  (((value.dropWhile Php.space).dropWhile quote).rdropWhile Php.space).rdropWhile quote

/-- A value without the blanks and quotes at both ends, of which the quotes come second. -/
def trimmed (value : Line) : Line := ((value.rdropWhile edge).dropWhile blank).dropWhile quote

theorem space_of_blank {c : Char} (h : blank c) : Php.space c := by
  simp only [blank, Bool.or_eq_true, decide_eq_true_eq] at h
  rcases h with rfl | rfl <;> rfl

theorem edge_of_blank {c : Char} (h : blank c) : edge c := by
  rw [edge, h, Bool.true_or]

theorem edge_of_quote {c : Char} (h : quote c) : edge c := by
  rw [edge, h, Bool.or_true]

theorem not_space_of_quote {c : Char} (h : quote c) : ¬Php.space c := by
  simp only [quote, Bool.or_eq_true, decide_eq_true_eq] at h
  rcases h with rfl | rfl <;> decide

theorem blank_of_edge {c : Char} (h : edge c) (hc : ¬quote c) : blank c := by
  simpa [edge, hc] using h

/-- The end is taken off first, which makes no difference. -/
theorem trimmed_eq (value : Line) : trimmed value = (body value).rdropWhile edge := by
  rw [trimmed, body]
  by_cases hall : ∀ c ∈ (value.dropWhile blank).dropWhile quote, edge c
  · have hvalue : ∀ c ∈ value, edge c := by
      intro c hc
      rw [← List.takeWhile_append_dropWhile (p := blank) (l := value),
        ← List.takeWhile_append_dropWhile (p := quote) (l := value.dropWhile blank),
        List.mem_append, List.mem_append] at hc
      rcases hc with hc | hc | hc
      · exact edge_of_blank (List.mem_takeWhile_imp hc)
      · exact edge_of_quote (List.mem_takeWhile_imp hc)
      · exact hall c hc
    rw [List.rdropWhile_eq_nil_iff.mpr hall, List.rdropWhile_eq_nil_iff.mpr hvalue]
    rfl
  · obtain ⟨u, a, v, hbody, ha, hv⟩ := exists_last_not hall
    have hblank : ¬blank a := fun h ↦ ha (edge_of_blank h)
    have hquote : ¬quote a := fun h ↦ ha (edge_of_quote h)
    obtain ⟨b, hb⟩ : ∃ b, value = b ++ a :: v :=
      ⟨value.takeWhile blank ++ ((value.dropWhile blank).takeWhile quote ++ u), by
        rw [List.append_assoc, List.append_assoc, ← hbody, List.takeWhile_append_dropWhile,
          List.takeWhile_append_dropWhile]⟩
    rw [hb, dropWhile_append_stop hblank, dropWhile_append_stop hquote] at hbody ⊢
    rw [rdropWhile_of_last ha hv, dropWhile_append_stop hblank, dropWhile_append_stop hquote,
      rdropWhile_of_last ha hv]

theorem body_split (value : Line) :
    body value = trimmed value ++ (body value).rtakeWhile edge := by
  rw [trimmed_eq, List.rdropWhile_append_rtakeWhile]

theorem last_trimmed {c : Char} (h : c ∈ (trimmed value).getLast?) : ¬edge c := by
  rw [trimmed_eq] at h
  obtain ⟨v, hv⟩ := List.getLast?_eq_some_iff.mp h
  have hne : (body value).rdropWhile edge ≠ [] := by
    rw [hv]
    simp
  have hlast := List.rdropWhile_last_not edge _ hne
  simpa [hv] using hlast

theorem dropWhile_space (value : Line) :
    value.dropWhile Php.space = (value.dropWhile blank).dropWhile Php.space := by
  obtain ⟨b, hb, hvalue⟩ := exists_blank value
  conv_lhs => rw [hvalue]
  exact List.dropWhile_append_of_pos fun c hc ↦ space_of_blank (hb c hc)

theorem dropWhile_space_of_front (h : ∀ c ∈ (value.dropWhile blank).head?, Php.space c = false) :
    value.dropWhile Php.space = value.dropWhile blank := by
  rw [dropWhile_space]
  cases hdrop : value.dropWhile blank with
  | nil => rfl
  | cons c cs =>
    have hc := h c (by rw [hdrop]; rfl)
    rw [List.dropWhile_cons, hc]
    rfl

theorem exists_trailing (l : Line) :
    ∃ q s, l = (l.rdropWhile Php.space).rdropWhile quote ++ (q ++ s) ∧ (∀ c ∈ q, quote c) ∧
      ∀ c ∈ s, Php.space c := by
  refine ⟨(l.rdropWhile Php.space).rtakeWhile quote, l.rtakeWhile Php.space, ?_,
    fun c hc ↦ List.mem_rtakeWhile_imp hc, fun c hc ↦ List.mem_rtakeWhile_imp hc⟩
  rw [← List.append_assoc, List.rdropWhile_append_rtakeWhile, List.rdropWhile_append_rtakeWhile]

theorem rdropWhile_eq_self {p : Char → Bool} (h : ∀ c ∈ u.getLast?, ¬p c) : u.rdropWhile p = u := by
  rw [List.rdropWhile_eq_self_iff]
  intro hne
  exact h _ (List.getLast?_eq_some_getLast hne)

theorem Plain.trimmed_eq (h : Plain value) : trimmed value = scriptValue value := by
  have hedge : (trimmed value).rdropWhile quote = trimmed value :=
    rdropWhile_eq_self fun c hc hquote ↦ last_trimmed hc (edge_of_quote hquote)
  have hend := List.takeWhile_append_dropWhile (p := quote) (l := (body value).rtakeWhile edge)
  have hspace : ∀ c ∈ ((body value).rtakeWhile edge).dropWhile quote, Php.space c :=
    fun c hc ↦ space_of_blank (h.back c hc)
  rw [scriptValue, dropWhile_space_of_front h.front, ← body, body_split value, ← hend,
    ← List.append_assoc, rdropWhile_append_of_all hspace]
  cases hq : ((body value).rtakeWhile edge).takeWhile quote using List.reverseRecOn with
  | nil =>
    have hlast : ∀ c ∈ (trimmed value).getLast?, ¬Php.space c := by
      intro c hc hspace
      rw [ZmConf.trimmed_eq] at hc
      obtain ⟨d, hd, hquote⟩ := h.last c hc hspace
      obtain ⟨w, hw⟩ := List.head?_eq_some_iff.mp hd
      rw [hw, List.takeWhile_cons, hquote] at hq
      cases hq
    rw [List.append_nil, rdropWhile_eq_self hlast, hedge]
  | append_singleton q d _ =>
    have hquotes : ∀ c ∈ q ++ [d], quote c := by
      rw [← hq]
      exact fun c hc ↦ List.mem_takeWhile_imp hc
    have hd := not_space_of_quote (hquotes d (by simp))
    rw [← List.append_assoc, List.rdropWhile_concat_neg _ _ _ hd, List.append_assoc,
      rdropWhile_append_of_all hquotes, hedge]

/-- What a vertical tab or form feed in front of a value is to the scripts, it is not to the
daemons. -/
theorem front_of_trimmed_eq (h : trimmed value = scriptValue value) :
    ∀ c ∈ (value.dropWhile blank).head?, Php.space c = false := by
  intro c hc
  by_contra hspace
  rw [Bool.not_eq_false] at hspace
  obtain ⟨w, hw⟩ := List.head?_eq_some_iff.mp hc
  have hblank : ¬blank c := by
    have hnot := head_dropWhile hc
    simpa using hnot
  have hquote : ¬quote c := fun hquote ↦ not_space_of_quote hquote hspace
  have hedge : ¬edge c := fun hedge ↦ hblank (blank_of_edge hedge hquote)
  obtain ⟨q, s, hqs, -, -⟩ := exists_trailing ((value.dropWhile Php.space).dropWhile quote)
  have hcount := congrArg (List.countP fun a ↦ !edge a) (body_split value)
  have hend : ((body value).rtakeWhile edge).countP (fun a ↦ !edge a) = 0 := by
    rw [List.countP_eq_zero]
    intro a ha
    simp [List.mem_rtakeWhile_imp ha]
  have hbody : body value = c :: w := by
    rw [body, hw, List.dropWhile_cons, if_neg hquote]
  have hsuffix : (value.dropWhile Php.space).dropWhile quote <:+ w := by
    rw [dropWhile_space, hw, List.dropWhile_cons, if_pos hspace]
    exact (List.dropWhile_suffix _).trans (List.dropWhile_suffix _)
  have hle := hsuffix.sublist.countP_le (p := fun a ↦ !edge a)
  rw [hqs, ← scriptValue, ← h, List.countP_append] at hle
  rw [List.countP_append, hend, hbody, List.countP_cons_of_pos (by simpa using hedge)] at hcount
  omega

theorem trimmed_eq_iff : trimmed value = scriptValue value ↔ Plain value := by
  refine ⟨fun h ↦ ?_, Plain.trimmed_eq⟩
  have hfront := front_of_trimmed_eq h
  obtain ⟨q, s, hqs, hq, hs⟩ := exists_trailing ((value.dropWhile Php.space).dropWhile quote)
  rw [← scriptValue, ← h, dropWhile_space_of_front hfront, ← body] at hqs
  have happend : trimmed value ++ (body value).rtakeWhile edge =
      trimmed value ++ (q ++ s) := by
    rw [← hqs, ← body_split]
  have hend := List.append_cancel_left happend
  refine ⟨hfront, ?_, ?_⟩
  · intro c hc
    have hmem : c ∈ s := by
      rw [hend, List.dropWhile_append_of_pos hq] at hc
      exact (List.dropWhile_sublist _).mem hc
    have hedge : edge c := by
      apply List.mem_rtakeWhile_imp (l := body value)
      rw [hend]
      exact List.mem_append_right q hmem
    exact blank_of_edge hedge fun hquote ↦ not_space_of_quote hquote (hs c hmem)
  · intro c hc hspace
    cases q with
    | cons d q => exact ⟨d, by rw [hend]; rfl, hq d (by simp)⟩
    | nil =>
      -- then the scripts would take the last character of the value as well
      exfalso
      rw [← trimmed_eq] at hc
      obtain ⟨v, hv⟩ := List.getLast?_eq_some_iff.mp hc
      have hprefix := List.rdropWhile_prefix quote ((body value).rdropWhile Php.space)
      have hlen := hprefix.length_le
      rw [body, ← dropWhile_space_of_front hfront, ← scriptValue, ← h,
        dropWhile_space_of_front hfront, ← body, hqs, List.nil_append,
        rdropWhile_append_of_all hs, hv, List.rdropWhile_concat_pos _ _ _ hspace] at hlen
      have hle := (List.rdropWhile_prefix Php.space v).length_le
      rw [List.length_append, List.length_singleton] at hlen
      omega

theorem takeWhile_blank_or_quote (value : Line) :
    value.takeWhile blank = [] ∨ value.takeWhile quote = [] := by
  cases value with
  | nil => exact .inl rfl
  | cons c v =>
    by_cases hblank : blank c
    · refine .inr ?_
      rw [List.takeWhile_cons,
        if_neg fun hquote ↦ not_space_of_quote hquote (space_of_blank hblank)]
    · refine .inl ?_
      rw [List.takeWhile_cons, if_neg hblank]

theorem skip_of_blank {c : Char} (hc : c ∈ value.head?) (hblank : blank c) :
    Daemon.skip value = value.dropWhile blank := by
  obtain ⟨v, rfl⟩ := List.head?_eq_some_iff.mp hc
  have hquote : (c :: v).takeWhile quote = [] := by
    rw [List.takeWhile_cons, if_neg fun hquote ↦ not_space_of_quote hquote (space_of_blank hblank)]
  rw [Daemon.skip, hquote, List.length_nil, Nat.add_zero, drop_length_takeWhile]

theorem skip_of_not_blank (h : ∀ c ∈ value.head?, ¬blank c) :
    Daemon.skip value = value.dropWhile quote := by
  have hblank : value.takeWhile blank = [] := by
    cases value with
    | nil => rfl
    | cons c v => rw [List.takeWhile_cons, if_neg (h c rfl)]
  rw [Daemon.skip, hblank, List.length_nil, Nat.zero_add, drop_length_takeWhile]

/-- Both are counted from the front, which makes no difference where no quote follows blanks. -/
theorem daemonValue_eq (hopening : (∃ c ∈ value.head?, blank c) →
    (∃ c ∈ (value.dropWhile blank).head?, quote c) → ∀ c ∈ value, edge c) :
    daemonValue value = trimmed value := by
  rw [daemonValue, trimmed]
  by_cases hall : ∀ c ∈ value, edge c
  · rw [List.rdropWhile_eq_nil_iff.mpr hall]
    rfl
  · obtain ⟨u, a, w, rfl, ha, hw⟩ := exists_last_not hall
    rw [rdropWhile_of_last ha hw]
    by_cases hfirst : ∃ c ∈ (u ++ [a]).head?, blank c
    · obtain ⟨c, hc, hblank⟩ := hfirst
      rw [skip_of_blank hc hblank]
      have hhead : (u ++ a :: w).head? = (u ++ [a]).head? := by cases u <;> rfl
      have hrest : ((u ++ a :: w).dropWhile blank).head? = ((u ++ [a]).dropWhile blank).head? := by
        rw [dropWhile_append_stop fun hblank ↦ ha (edge_of_blank hblank),
          dropWhile_append_stop fun hblank ↦ ha (edge_of_blank hblank)]
        cases u.dropWhile blank <;> rfl
      cases hdrop : (u ++ [a]).dropWhile blank with
      | nil => rfl
      | cons d v =>
        have hquote : ¬quote d := fun hquote ↦
          hall (hopening ⟨c, hhead ▸ hc, hblank⟩ ⟨d, by rw [hrest, hdrop]; rfl, hquote⟩)
        rw [List.dropWhile_cons, if_neg hquote]
    · have hnot : ∀ c ∈ (u ++ [a]).head?, ¬blank c := fun c hc hblank ↦ hfirst ⟨c, hc, hblank⟩
      rw [skip_of_not_blank hnot]
      congr 1
      cases hua : u ++ [a] with
      | nil => rfl
      | cons c v =>
        rw [List.dropWhile_cons, if_neg (hnot c (by rw [hua]; rfl))]

/-- The scripts take a quote off the front that the daemons leave there. -/
theorem opening_of_value_eq (h : daemonValue value = scriptValue value)
    (hblank : ∃ c ∈ value.head?, blank c)
    (hquote : ∃ c ∈ (value.dropWhile blank).head?, quote c) : ∀ c ∈ value, edge c := by
  by_contra hall
  obtain ⟨c, hc, hblank⟩ := hblank
  obtain ⟨d, hd, hquote⟩ := hquote
  obtain ⟨u, a, w, rfl, ha, hw⟩ := exists_last_not hall
  have hhead : (u ++ a :: w).head? = (u ++ [a]).head? := by cases u <;> rfl
  have hrest : ((u ++ a :: w).dropWhile blank).head? = ((u ++ [a]).dropWhile blank).head? := by
    rw [dropWhile_append_stop fun hblank ↦ ha (edge_of_blank hblank),
      dropWhile_append_stop fun hblank ↦ ha (edge_of_blank hblank)]
    cases u.dropWhile blank <;> rfl
  have hdaemon : (daemonValue (u ++ a :: w)).head? = some d := by
    rw [daemonValue, rdropWhile_of_last ha hw, skip_of_blank (hhead ▸ hc) hblank, ← hrest]
    exact hd
  obtain ⟨v, hv⟩ := List.head?_eq_some_iff.mp hdaemon
  obtain ⟨q, s, hqs, -, -⟩ := exists_trailing (((u ++ a :: w).dropWhile Php.space).dropWhile quote)
  rw [← scriptValue, ← h, hv] at hqs
  have hnot := head_dropWhile (p := quote) (l := (u ++ a :: w).dropWhile Php.space) (a := d)
    (by rw [hqs]; rfl)
  rw [hquote] at hnot
  cases hnot

theorem value_eq_iff : daemonValue value = scriptValue value ↔ Tidy value := by
  constructor
  · intro h
    have hopening := opening_of_value_eq h
    rw [daemonValue_eq hopening] at h
    exact ⟨trimmed_eq_iff.mp h, hopening⟩
  · exact fun h ↦ (daemonValue_eq h.opening).trans h.trimmed_eq

/-- Neither pattern takes a backslash off, so one that ends a value stays. -/
theorem value_ne_of_backslash : daemonValue value ≠ scriptValue (value ++ '\\' :: b) := by
  have hne : ∀ p : Char → Bool, p '\\' = false → ∀ c, p c → (c == '\\') = false := by
    intro p hp c hc
    rw [beq_eq_false_iff_ne]
    rintro rfl
    rw [hp] at hc
    cases hc
  have hblank := hne blank rfl
  have hspace := hne Php.space rfl
  have hquote := hne quote rfl
  have hedge := hne edge rfl
  intro h
  have hfilter := congrArg (List.filter (· == '\\')) h
  have hskip (v : Line) : (Daemon.skip v).filter (· == '\\') = v.filter (· == '\\') := by
    by_cases hfirst : ∃ c ∈ v.head?, blank c
    · obtain ⟨c, hc, hfirst⟩ := hfirst
      rw [skip_of_blank hc hfirst, filter_dropWhile hblank]
    · rw [skip_of_not_blank fun c hc hfirst' ↦ hfirst ⟨c, hc, hfirst'⟩, filter_dropWhile hquote]
  rw [daemonValue, scriptValue, hskip, filter_rdropWhile hedge, filter_rdropWhile hquote,
    filter_rdropWhile hspace, filter_dropWhile hquote, filter_dropWhile hspace, List.filter_append,
    List.filter_cons_of_pos (by decide)] at hfilter
  simpa using congrArg List.length hfilter

end ZoneMinder.ZmConf
