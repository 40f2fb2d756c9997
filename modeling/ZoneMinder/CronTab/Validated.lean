import ZoneMinder.CronTab.Schedule

namespace ZoneMinder.CronTab

open Php

section Fields

variable {text line rest command : Text} {fields : List Text} {n : ℕ}

/-- Cron reads the fields of the schedule, and after them the command as it stands. -/
theorem cronFields_append {b : Char} (hb : cronSpace b = true)
    (hn : (Lib.pieces cronSpace text).length = n) :
    cronFields n (text ++ b :: rest) =
      some (Lib.pieces cronSpace text, rest.dropWhile cronSpace) := by
  induction n generalizing text with
  | zero =>
    have hall := Lib.pieces_eq_nil.mp (List.length_eq_zero_iff.mp hn)
    rw [cronFields, Lib.pieces_eq_nil.mpr hall, List.dropWhile_append_of_pos hall,
      List.dropWhile_cons_of_pos hb]
  | succ n ih =>
    have hne : text.dropWhile cronSpace ≠ [] := by
      intro hnil
      rw [← Lib.pieces_dropWhile, hnil] at hn
      cases hn
    have hhead : ∀ c ∈ (text.dropWhile cronSpace).head?, cronSpace c = false :=
      fun c hc ↦ Lib.head_dropWhile hc
    have hpieces := Lib.pieces_eq_cons hne hhead
    rw [Lib.pieces_dropWhile] at hpieces
    rw [hpieces, List.length_cons, Nat.add_right_cancel_iff] at hn
    have hline : (text ++ b :: rest).dropWhile cronSpace =
        text.dropWhile cronSpace ++ b :: rest := by
      rw [List.dropWhile_append, if_neg (by simpa using hne)]
    have hstop : ¬(!cronSpace b) = true := by simp [hb]
    have htake := Lib.takeWhile_append_stop (p := fun c ↦ !cronSpace c) hstop
      (text.dropWhile cronSpace) rest
    have hdrop := Lib.dropWhile_append_stop (p := fun c ↦ !cronSpace c) hstop
      (text.dropWhile cronSpace) rest
    simp only [cronFields, hline, htake, hdrop, if_neg (Lib.takeWhile_ne_nil hne hhead), ih hn,
      hpieces, Option.map_some]

/-- What cron takes as fields is made of them and of what separates them. -/
theorem exists_of_cronFields (h : cronFields n line = some (fields, rest)) :
    ∃ taken, line = taken ++ rest ∧ Lib.pieces cronSpace taken = fields ∧
      (∀ c ∈ rest.head?, cronSpace c = false) ∧
      (rest ≠ [] → ∀ c ∈ taken.getLast?, cronSpace c = true) := by
  induction n generalizing line fields with
  | zero =>
    obtain ⟨rfl, rfl⟩ := Prod.mk.inj (Option.some.inj h)
    have hall : ∀ c ∈ line.takeWhile cronSpace, cronSpace c = true :=
      fun c hc ↦ List.mem_takeWhile_imp hc
    refine ⟨line.takeWhile cronSpace, List.takeWhile_append_dropWhile.symm,
      Lib.pieces_eq_nil.mpr hall, fun c hc ↦ Lib.head_dropWhile hc, ?_⟩
    intro _ c hc
    exact hall c (List.mem_of_getLast? hc)
  | succ n ih =>
    rw [cronFields] at h
    obtain ⟨hne, h⟩ := Option.ite_none_left_eq_some.mp h
    obtain ⟨⟨fields', rest'⟩, hrest, heq⟩ := Option.map_eq_some_iff.mp h
    obtain ⟨rfl, rfl⟩ := Prod.mk.inj heq
    obtain ⟨taken, hline, hpieces, hhead, hlast⟩ := ih hrest
    have hstop : ∀ c ∈ (taken ++ rest').head?, cronSpace c = true := by
      intro c hc
      rw [← hline] at hc
      simpa using Lib.head_dropWhile hc
    have hfield : ∀ c ∈ (line.dropWhile cronSpace).takeWhile (fun c ↦ !cronSpace c),
        cronSpace c = false := by
      intro c hc
      simpa using List.mem_takeWhile_imp hc
    refine ⟨line.takeWhile cronSpace ++
      ((line.dropWhile cronSpace).takeWhile (fun c ↦ !cronSpace c) ++ taken), ?_, ?_, hhead, ?_⟩
    · rw [List.append_assoc, List.append_assoc, ← hline, List.takeWhile_append_dropWhile,
        List.takeWhile_append_dropWhile]
    · rw [Lib.pieces_append_of_all fun c hc ↦ List.mem_takeWhile_imp hc,
        Lib.pieces_append_of_head hne hfield, hpieces]
      exact fun c hc ↦ hstop c (List.mem_head?_append_of_mem_head? hc)
    · intro hne' c hc
      cases taken with
      | nil =>
        -- Cron stops where a field ends, and there a space stands.
        obtain ⟨d, rest, rfl⟩ := List.exists_cons_of_ne_nil hne'
        have hspace := hstop d (by simp)
        rw [hhead d (by simp)] at hspace
        cases hspace
      | cons d taken =>
        refine hlast hne' c ?_
        rw [← List.append_assoc, List.getLast?_append_cons] at hc
        exact hc

end Fields

section Percent

variable {command rest : Text}

theorem splitPercent_of_notMem (escaped : Bool) (h : '%' ∉ command) :
    splitPercent escaped command = (command, none) := by
  induction command generalizing escaped with
  | nil => rfl
  | cons c command ih =>
    have hc : c ≠ '%' := by
      rintro rfl
      simp at h
    rw [splitPercent, if_neg fun hp ↦ hc hp.1, ih _ fun hmem ↦ h (List.mem_cons_of_mem c hmem)]

theorem command_of_splitPercent {escaped : Bool}
    (h : splitPercent escaped rest = (command, none)) : rest = command := by
  induction rest generalizing escaped command with
  | nil => exact (Prod.mk.inj h).1
  | cons c rest ih =>
    rw [splitPercent] at h
    split_ifs at h
    · cases h
    · obtain ⟨rfl, hinput⟩ := Prod.mk.inj h
      exact congrArg (c :: ·) (ih (Prod.ext rfl hinput))

theorem removePair_of_ne {a b c : Char} (hc : c ≠ a) (text : Text) :
    removePair a b (c :: text) = c :: removePair a b text := by
  cases text with
  | nil => rfl
  | cons d text => rw [removePair, if_neg fun h ↦ hc h.1]

theorem splitPercent_cons {c : Char} (hc : c ≠ '%') (hc' : c ≠ '\\') (escaped : Bool)
    (text : Text) : splitPercent escaped (c :: text) =
      (c :: (splitPercent false text).1, (splitPercent false text).2) := by
  simp [splitPercent, hc, hc']

/-- A percent sign is escaped where the backslashes before it leave one over, taken in pairs. -/
theorem splitPercent_append (n : ℕ) (hn : command.length ≤ n)
    (h : '%' ∉ removePair '\\' '%' (removePair '\\' '\\' command)) (hrest : '%' ∉ rest) :
    splitPercent false (command ++ rest) = (command ++ rest, none) := by
  induction n generalizing command with
  | zero =>
    obtain rfl := List.length_eq_zero_iff.mp (Nat.le_zero.mp hn)
    exact splitPercent_of_notMem false hrest
  | succ n ih =>
    cases command with
    | nil => exact splitPercent_of_notMem false hrest
    | cons c command =>
      rw [List.length_cons] at hn
      by_cases hc : c = '\\'
      · subst hc
        cases command with
        | nil =>
          simp [splitPercent, splitPercent_of_notMem true hrest]
        | cons d command =>
          rw [List.length_cons] at hn
          by_cases hd : d = '\\'
          · subst hd
            have hpair := @ih command (by omega) (by simpa [removePair] using h)
            simp [splitPercent, hpair]
          · rw [removePair, if_neg fun h ↦ hd h.2, removePair_of_ne hd, removePair] at h
            by_cases hpercent : d = '%'
            · subst hpercent
              have hescaped := @ih command (by omega) (by simpa using h)
              simp [splitPercent, hescaped]
            · rw [if_neg fun h ↦ hpercent h.2, ← removePair_of_ne hd] at h
              have hplain := @ih (d :: command) (by simp; omega)
                fun hmem ↦ h (List.mem_cons_of_mem _ hmem)
              rw [List.cons_append, splitPercent_cons hpercent hd] at hplain
              rw [List.cons_append, splitPercent, if_neg (by simp), List.cons_append,
                splitPercent_cons hpercent hd, hplain]
      · rw [removePair_of_ne hc, removePair_of_ne hc] at h
        have hpercent : c ≠ '%' := by
          rintro rfl
          simp at h
        have hplain := ih (by omega) fun hmem ↦ h (List.mem_cons_of_mem _ hmem)
        simp [splitPercent, hc, hpercent, hplain]

end Percent

section Line

variable {schedule command : Text}

/-- The five fields are cron's where nothing but its own spaces separates them. -/
theorem runsAsValidated_iff (hvalid : cronScheduleIsValid schedule = true)
    (hhead : ∀ c ∈ command.head?, cronSpace c = false) (hone : '\n' ∉ command)
    (hpercent : splitPercent false command = (command, none)) :
    RunsAsValidated schedule command (trim schedule ++ ' ' :: command) ↔
      ∀ c ∈ trim schedule, c ≠ '\x0b' ∧ c ≠ '\x0c' := by
  simp only [cronScheduleIsValid, Bool.and_eq_true, decide_eq_true_eq] at hvalid
  obtain ⟨⟨hchars, hlength⟩, -⟩ := hvalid
  have hplain : ∀ c ∈ trim schedule, c ≠ '\r' ∧ c ≠ '\n' := by
    intro c hc
    have hnot := List.all_eq_true.mp hchars c (Lib.mem_of_mem_trim hc)
    simp only [List.mem_cons, decide_eq_true_eq, not_or] at hnot
    exact ⟨hnot.1, hnot.2.1⟩
  constructor
  · intro h c hc
    obtain ⟨⟨fields, rest⟩, hfields, hentry⟩ := Option.map_eq_some_iff.mp h.parse
    rw [CronEntry.mk.injEq] at hentry
    obtain ⟨rfl, hcommand, hinput⟩ := hentry
    obtain rfl := command_of_splitPercent (Prod.ext hcommand hinput)
    obtain ⟨taken, hline, hpieces, -, -⟩ := exists_of_cronFields hfields
    have htrim : trim schedule ++ [' '] = taken := by
      have hparts : (trim schedule ++ [' ']) ++ rest = taken ++ rest := by
        rw [← hline]
        simp
      exact List.append_cancel_right hparts
    have hspace : space c = false → c ≠ '\x0b' ∧ c ≠ '\x0c' := by
      intro hspace
      simp only [space, List.mem_cons, decide_eq_false_iff_not, not_or] at hspace
      exact ⟨hspace.2.2.2.1, hspace.2.2.2.2.1⟩
    have hmem : c ∈ taken := by
      rw [← htrim]
      exact List.mem_append_left _ hc
    rcases @Lib.mem_or_mem_pieces _ cronSpace _ _ hmem with hc' | ⟨field, hf, hc'⟩
    · rcases Bool.or_eq_true_iff.mp hc' with hc' | hc' <;>
        simp [of_decide_eq_true hc']
    · rw [hpieces] at hf
      exact hspace ((Lib.mem_pieces hf).2 c hc')
  · intro h
    have hspace : ∀ c ∈ trim schedule, space c = cronSpace c := by
      intro c hc
      obtain ⟨hr, hn⟩ := hplain c hc
      obtain ⟨hv, hf⟩ := h c hc
      simp [space, cronSpace, hr, hn, hv, hf]
    have hpieces : scheduleFields schedule = Lib.pieces cronSpace (trim schedule) :=
      Lib.pieces_congr hspace
    refine ⟨?_, ?_⟩
    · intro hmem
      rcases List.mem_append.mp hmem with hmem | hmem
      · exact (hplain _ hmem).2 rfl
      · exact hone ((List.mem_cons.mp hmem).resolve_left (by decide))
    · have hcommand : command.dropWhile cronSpace = command := by
        cases command with
        | nil => rfl
        | cons c command => rw [List.dropWhile_cons_of_neg (by simp [hhead c rfl])]
      rw [cronParse, cronFields_append rfl (by rw [← hpieces]; exact hlength), ← hpieces, hcommand]
      simp [hpercent]

end Line

theorem notMem_decimal {c : Char} (hc : c ≠ '-') (hd : c.isDigit = false) (n : ℤ) :
    c ∉ decimal n := by
  intro hmem
  rcases mem_decimal hmem with h | h
  · exact hc h
  · rw [hd] at h
    cases h

theorem CronJob.runs_iff {allowed line : Text} {job : CronJob}
    (h : job.cronLine allowed = some line) :
    RunsAsValidated job.schedule job.line line ↔
      ∀ c ∈ trim job.schedule, c ≠ '\x0b' ∧ c ≠ '\x0c' := by
  rw [cronLine] at h
  obtain ⟨-, h⟩ := Option.ite_none_left_eq_some.mp h
  obtain ⟨hschedule, h⟩ := Option.ite_none_left_eq_some.mp h
  obtain ⟨hcommand, h⟩ := Option.ite_none_left_eq_some.mp h
  obtain ⟨-, h⟩ := Option.ite_none_left_eq_some.mp h
  obtain rfl := Option.some.inj h
  rw [Bool.not_eq_true, Bool.not_eq_false'] at hschedule hcommand
  simp only [cronCommandIsValid, Bool.and_eq_true, decide_eq_true_eq] at hcommand
  obtain ⟨⟨hne, hchars⟩, hpercent⟩ := hcommand
  have hsuffix : '%' ∉ " # ZoneMinder job ".toList ++ decimal job.id := by
    rw [List.mem_append, not_or]
    exact ⟨by decide, notMem_decimal (by decide) rfl job.id⟩
  refine runsAsValidated_iff hschedule ?_ ?_ ?_
  · intro c hc
    have hhead : c ∈ (trim job.command).head? := by
      obtain ⟨d, rest, hcons⟩ := List.exists_cons_of_ne_nil hne
      simpa [line, hcons] using hc
    have htrimmed := Lib.head_trim hhead
    simp only [trimmed, List.mem_cons, decide_eq_false_iff_not, not_or] at htrimmed
    simp [cronSpace, htrimmed.1, htrimmed.2.1]
  · intro hmem
    rw [line, List.append_assoc, List.mem_append, List.mem_append] at hmem
    rcases hmem with hmem | hmem | hmem
    · have hnot := List.all_eq_true.mp hchars _ hmem
      simp at hnot
    · revert hmem
      decide
    · exact notMem_decimal (by decide) rfl job.id hmem
  · rw [line, List.append_assoc]
    exact splitPercent_append _ le_rfl hpercent hsuffix

namespace MonitorAction

variable {action : MonitorAction} {command : Text} {bin : PathBin}

theorem plain_commandFor {actionType : String} (h : commandFor actionType = some command) :
    '\n' ∉ command ∧ '%' ∉ command := by
  unfold commandFor at h
  split at h
  case h_7 => cases h
  all_goals
    obtain rfl := Option.some.inj h
    decide

/-- No part of the command comes from a form. -/
theorem notMem_line {c : Char} (hpath : c ∉ bin.path) (hcommand : c ∉ command)
    (htext : c ∉ "/zmcontrol.pl --id ".toList ∧ c ∉ " --file=".toList ∧
      c ∉ " --command=".toList ∧ c ∉ " # ZoneMinder action ".toList)
    (hc : c ≠ '-') (hd : c.isDigit = false) : c ∉ action.line bin command := by
  have hfile : c ∉ action.fileOption := by
    rw [fileOption]
    split
    · split_ifs
      · rw [List.mem_append, not_or]
        exact ⟨htext.2.1, notMem_decimal hc hd _⟩
      · exact List.not_mem_nil
    · exact List.not_mem_nil
  simp only [line, List.mem_append, not_or]
  exact ⟨⟨⟨⟨⟨⟨⟨hpath, htext.1⟩, notMem_decimal hc hd _⟩, hfile⟩, htext.2.2.1⟩, hcommand⟩,
    htext.2.2.2⟩, notMem_decimal hc hd _⟩

theorem runs_iff {line : Text} (h : action.cronLine bin = some line) :
    ∃ command, commandFor action.actionType = some command ∧
      (RunsAsValidated action.schedule (action.line bin command) line ↔
        ∀ c ∈ trim action.schedule, c ≠ '\x0b' ∧ c ≠ '\x0c') := by
  rw [cronLine] at h
  obtain ⟨-, h⟩ := Option.ite_none_left_eq_some.mp h
  obtain ⟨-, h⟩ := Option.ite_none_left_eq_some.mp h
  obtain ⟨hschedule, h⟩ := Option.ite_none_left_eq_some.mp h
  rw [Bool.not_eq_true, Bool.not_eq_false'] at hschedule
  cases hcommand : commandFor action.actionType with
  | none => simp [hcommand] at h
  | some command =>
    simp only [hcommand] at h
    obtain ⟨-, h⟩ := Option.ite_none_left_eq_some.mp h
    obtain rfl := Option.some.inj h
    obtain ⟨hnewline, hpercent⟩ := plain_commandFor hcommand
    refine ⟨command, rfl, runsAsValidated_iff hschedule ?_ ?_ ?_⟩
    · intro c hc
      have hhead : (action.line bin command).head? = some '/' := by
        cases hpath : bin.path with
        | nil => simp [line, hpath]
        | cons d path =>
          have habsolute := bin.absolute
          rw [hpath] at habsolute
          simpa [line, hpath] using habsolute
      rw [hhead] at hc
      obtain rfl := Option.some.inj hc
      rfl
    · exact notMem_line (fun h ↦ (bin.plain _ h).1 rfl) hnewline (by decide) (by decide) rfl
    · exact splitPercent_of_notMem false
        (notMem_line (fun h ↦ (bin.plain _ h).2 rfl) hpercent (by decide) (by decide) rfl)

end MonitorAction

theorem cronLines_iff (allowed : Text) (bin : PathBin) :
    (∀ (job : CronJob) line, job.cronLine allowed = some line →
      (RunsAsValidated job.schedule job.line line ↔
        ∀ c ∈ trim job.schedule, c ≠ '\x0b' ∧ c ≠ '\x0c')) ∧
    ∀ (action : MonitorAction) line, action.cronLine bin = some line →
      ∃ command, MonitorAction.commandFor action.actionType = some command ∧
        (RunsAsValidated action.schedule (action.line bin command) line ↔
          ∀ c ∈ trim action.schedule, c ≠ '\x0b' ∧ c ≠ '\x0c') :=
  ⟨fun _ _ h ↦ CronJob.runs_iff h, fun _ _ h ↦ MonitorAction.runs_iff h⟩

def nightly : CronJob := ⟨7, true, " 0 8 * * * ".toList, "date +\\%F".toList⟩

def nightlyAlarm : MonitorAction :=
  ⟨3, "Schedule", true, "30 22 * * 1-5".toList, "AudioPlay", 12, some 4⟩

def usrBin : PathBin := ⟨"/usr/bin".toList, rfl, by simp⟩

theorem cronLines_iff_nightly :
    RunsAsValidated nightly.schedule nightly.line
      (trim nightly.schedule ++ ' ' :: nightly.line) ∧
    RunsAsValidated nightlyAlarm.schedule (nightlyAlarm.line usrBin "audioPlay".toList)
      ("30 22 * * 1-5 /usr/bin/zmcontrol.pl --id 12 --file=4 --command=audioPlay " ++
        "# ZoneMinder action 3").toList := by
  obtain ⟨hjob, haction⟩ := cronLines_iff [] usrBin
  constructor
  · apply (hjob nightly _ (by decide)).mpr
    have htrim : trim nightly.schedule = "0 8 * * *".toList := by decide
    rw [htrim]
    simp
  · obtain ⟨command, hcommand, hruns⟩ := haction nightlyAlarm
      ("30 22 * * 1-5 /usr/bin/zmcontrol.pl --id 12 --file=4 --command=audioPlay " ++
        "# ZoneMinder action 3").toList (by decide +kernel)
    have hplay : MonitorAction.commandFor "AudioPlay" = some "audioPlay".toList := rfl
    obtain rfl := Option.some.inj (hplay.symm.trans hcommand)
    apply hruns.mpr
    have htrim : trim nightlyAlarm.schedule = "30 22 * * 1-5".toList := by decide
    rw [htrim]
    simp

/-- The same schedule with a vertical tab for one of its spaces. -/
theorem shifted_field : ¬∀ (allowed : Text) (job : CronJob) line,
    job.cronLine allowed = some line → RunsAsValidated job.schedule job.line line := by
  intro h
  have hparse := (h [] { nightly with schedule := "0 8 *\x0b* *".toList }
    ("0 8 *\x0b* *".toList ++ ' ' :: nightly.line) (by decide)).parse
  revert hparse
  decide

end ZoneMinder.CronTab
