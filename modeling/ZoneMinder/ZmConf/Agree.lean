import ZoneMinder.ZmConf.Values

namespace ZoneMinder.ZmConf

open Lib

variable {line name value b : Line} {text : Text}

structure UpperName (name : Line) : Prop where
  letter : ∃ c ∈ name, c.isUpper
  chars : ∀ c ∈ name, c ≠ '=' ∧ Php.space c = false ∧ c.toUpper = c
  comment : name.head? ≠ some '#'

def Sets (line name value : Line) : Prop :=
  ∃ b c, (∀ a ∈ b, blank a) ∧ (∀ a ∈ c, blank a) ∧ line = b ++ (name ++ (c ++ '=' :: value)) ∧
    UpperName name

inductive LineShape : Line → Prop
  | blank {line : Line} : (∀ c ∈ line, blank c) → LineShape line
  | comment {b text : Line} : (∀ c ∈ b, ZmConf.blank c) → LineShape (b ++ '#' :: text)
  | setting {line name value : Line} : Sets line name value → LineShape line

theorem not_blank_of_not_space {c : Char} (h : Php.space c = false) : ¬blank c := by
  intro hblank
  rw [space_of_blank hblank] at h
  cases h

theorem UpperName.head (h : UpperName name) :
    ∃ c cs, name = c :: cs ∧ c ≠ '#' ∧ Php.space c = false := by
  cases name with
  | nil =>
    obtain ⟨c, hc, -⟩ := h.letter
    cases hc
  | cons c cs =>
    refine ⟨c, cs, rfl, ?_, (h.chars c (by simp)).2.1⟩
    rintro rfl
    exact h.comment rfl

theorem UpperName.not_zero (h : UpperName name) : name ≠ ['0'] := by
  rintro rfl
  obtain ⟨c, hc, hupper⟩ := h.letter
  rw [List.mem_singleton] at hc
  subst hc
  exact absurd hupper (by decide)

theorem UpperName.toUpper (h : UpperName name) : name.map Char.toUpper = name :=
  List.map_congr_left (g := id) (fun c hc ↦ (h.chars c hc).2.2) |>.trans name.map_id

theorem daemon_setting_append (hb : ∀ c ∈ b, blank c) (line : Line) :
    Daemon.setting (b ++ line) = Daemon.setting line := by
  have hnul : ∀ c ∈ b, decide (c ≠ '\x00') := by
    intro c hc
    rw [decide_eq_true_eq]
    rintro rfl
    exact absurd (hb _ hc) (by decide)
  rw [Daemon.setting, Daemon.setting, List.takeWhile_append_of_pos hnul,
    List.dropWhile_append_of_pos hb]

theorem daemon_setting_nil : Daemon.setting [] = none := rfl

theorem daemon_setting_blank (h : ∀ c ∈ line, blank c) : Daemon.setting line = none := by
  rw [← List.append_nil line, daemon_setting_append h, daemon_setting_nil]

theorem daemon_setting_comment (hb : ∀ c ∈ b, blank c) :
    Daemon.setting (b ++ '#' :: line) = none := by
  rw [daemon_setting_append hb]
  rfl

theorem Sets.daemon_setting (h : Sets line name value) (hnul : '\x00' ∉ line) :
    Daemon.setting line = some (name, daemonValue value) := by
  obtain ⟨b, c, hb, hc, rfl, hname⟩ := h
  obtain ⟨a, as, has, hcomment, hspace⟩ := hname.head
  have hblank := not_blank_of_not_space hspace
  have heq : ∀ d ∈ name ++ c, decide (d ≠ '=') := by
    intro d hd
    rw [decide_eq_true_eq]
    rcases List.mem_append.mp hd with hd | hd
    · exact (hname.chars d hd).1
    · rintro rfl
      exact absurd (hc _ hd) (by decide)
  have hline : (b ++ (name ++ (c ++ '=' :: value))).takeWhile (fun c ↦ c ≠ '\x00') =
      b ++ (name ++ (c ++ '=' :: value)) := by
    rw [List.takeWhile_eq_self_iff]
    intro d hd
    rw [decide_eq_true_eq]
    rintro rfl
    exact hnul hd
  have hdrop : (b ++ (name ++ (c ++ '=' :: value))).dropWhile blank =
      (name ++ c) ++ '=' :: value := by
    rw [List.dropWhile_append_of_pos hb, has, List.cons_append, List.dropWhile_cons,
      if_neg hblank, List.cons_append, List.cons_append, List.append_assoc]
  have hend : (name ++ c).rdropWhile blank = name := by
    rw [rdropWhile_append_of_all hc]
    apply rdropWhile_eq_self
    intro d hd
    exact not_blank_of_not_space (hname.chars d (List.mem_of_getLast? hd)).2.1
  have hskip : ¬((name ++ c) ++ '=' :: value = [] ∨
      ((name ++ c) ++ '=' :: value).head? = some '#') := by
    simp [has, hcomment]
  have hname' : ∀ v : Line, ((name ++ c) ++ '=' :: v).takeWhile (fun c ↦ c ≠ '=') = name ++ c := by
    intro v
    rw [List.takeWhile_append_of_pos heq]
    simp
  have hvalue : ∀ v : Line, ((name ++ c) ++ '=' :: v).dropWhile (fun c ↦ c ≠ '=') = '=' :: v := by
    intro v
    rw [List.dropWhile_append_of_pos heq]
    simp
  rw [Daemon.setting, hline, hdrop, if_neg hskip, rdropWhile_append_cons (by decide)]
  dsimp only
  rw [hname', hvalue, hend]
  rfl

theorem Sets.script_setting (h : Sets line name value) :
    Script.setting line = some (name, scriptValue value) := by
  obtain ⟨b, c, hb, hc, rfl, hname⟩ := h
  obtain ⟨a, as, has, hcomment, hspace⟩ := hname.head
  have hmem : ∀ d ∈ name, decide (d ≠ '=') && !Php.space d := by
    intro d hd
    obtain ⟨heq, hspace, -⟩ := hname.chars d hd
    simp [heq, hspace]
  have hb' : ∀ d ∈ b, Php.space d := fun d hd ↦ space_of_blank (hb d hd)
  have hc' : ∀ d ∈ c, Php.space d := fun d hd ↦ space_of_blank (hc d hd)
  have hdrop : (b ++ (name ++ (c ++ '=' :: value))).dropWhile Php.space =
      name ++ (c ++ '=' :: value) := by
    rw [List.dropWhile_append_of_pos hb', has, List.cons_append, List.dropWhile_cons, hspace]
    rfl
  have hskip : ¬(name ++ (c ++ '=' :: value) = [] ∨
      (name ++ (c ++ '=' :: value)).head? = some '#') := by
    simp [has, hcomment]
  have hstop : ∀ d ∈ (c ++ '=' :: value).head?, (decide (d ≠ '=') && !Php.space d) = false := by
    intro d hd
    cases c with
    | nil =>
      obtain rfl : '=' = d := by simpa using hd
      rfl
    | cons e c =>
      obtain rfl : e = d := by simpa using hd
      simp [hc' e (by simp)]
  have htake := takeWhile_append_head hstop name
  rw [List.takeWhile_eq_self_iff.mpr hmem] at htake
  have hrest := dropWhile_append_head hstop name
  rw [List.dropWhile_eq_nil_iff.mpr hmem, List.nil_append] at hrest
  have hvalue : (c ++ '=' :: value).dropWhile Php.space = '=' :: value := by
    rw [List.dropWhile_append_of_pos hc', List.dropWhile_cons]
    rfl
  rw [Script.setting, hdrop, if_neg hskip]
  dsimp only
  rw [htake, hrest, hvalue]
  have hne : name ≠ [] := by
    rw [has]
    simp
  exact if_neg hne

theorem Sets.perl_setting (h : Sets line name value) :
    Perl.setting line = some (name, scriptValue value) := by
  rw [Perl.setting, h.script_setting]
  obtain ⟨-, -, -, -, -, hname⟩ := h
  rw [Option.bind_some, if_neg hname.not_zero, hname.toUpper]

theorem script_setting_append (hb : ∀ c ∈ b, blank c) (line : Line) :
    Script.setting (b ++ line) = Script.setting line := by
  rw [Script.setting, Script.setting,
    List.dropWhile_append_of_pos fun c hc ↦ space_of_blank (hb c hc)]

theorem LineShape.perl_setting (h : LineShape line) : Perl.setting line = Script.setting line := by
  cases h with
  | blank h =>
    rw [Perl.setting, ← List.append_nil line, script_setting_append h]
    rfl
  | comment h =>
    rw [Perl.setting, script_setting_append h]
    rfl
  | setting h => rw [h.perl_setting, h.script_setting]

/-- The daemons read a line as the scripts do where its value is tidy. -/
theorem LineShape.daemon_setting (h : LineShape line) (hnul : '\x00' ∉ line)
    (htidy : ∀ name value, Sets line name value → Tidy value) :
    Daemon.setting line = Script.setting line := by
  cases h with
  | blank h =>
    rw [daemon_setting_blank h, ← List.append_nil line, script_setting_append h]
    rfl
  | comment h =>
    rw [daemon_setting_comment h, script_setting_append h]
    rfl
  | @setting _ name value h =>
    rw [h.daemon_setting hnul, h.script_setting, value_eq_iff.mpr (htidy name value h)]

/-- A file as an owner writes it. -/
structure Written (text : Text) : Prop where
  ascii : ∀ c ∈ text, c ≠ '\x00' ∧ c.toNat < 128
  eol : ∀ line ∈ physicalLines text, '\r' ∉ stripEol line
  lines : ∀ line ∈ (Script.logicalLines text).1, LineShape line
  rest : LineShape (Script.logicalLines text).2

/-- What makes the daemons and the scripts read a file alike: no line but for its blanks is empty
where the text before it ends in a second backslash, no setting waits for a line at the end, and
every value is tidy. -/
structure Clean (text : Text) : Prop where
  closed : Closed [] ((physicalLines text).map stripEol)
  finished : ∀ name value, ¬Sets (Script.logicalLines text).2 name value
  tidy : ∀ line ∈ (Script.logicalLines text).1, ∀ name value, Sets line name value → Tidy value

theorem mem_physicalLines {line : Line} {c : Char} (hline : line ∈ physicalLines text)
    (hc : c ∈ line) : c ∈ text := by
  induction text generalizing line with
  | nil => cases hline
  | cons d text ih =>
    rw [physicalLines] at hline
    split_ifs at hline with hd
    · rcases List.mem_cons.mp hline with rfl | hline
      · rw [List.mem_singleton.mp hc]
        exact List.mem_cons_self
      · exact List.mem_cons_of_mem d (ih hline hc)
    · cases hrest : physicalLines text with
      | nil =>
        rw [hrest, List.mem_singleton] at hline
        rw [hline, List.mem_singleton] at hc
        rw [hc]
        exact List.mem_cons_self
      | cons first lines =>
        rw [hrest] at hline ih
        rcases List.mem_cons.mp hline with rfl | hline
        · rcases List.mem_cons.mp hc with rfl | hc
          · exact List.mem_cons_self
          · exact List.mem_cons_of_mem d (ih List.mem_cons_self hc)
        · exact List.mem_cons_of_mem d (ih (List.mem_cons_of_mem first hline) hc)

theorem mem_stripEol {c : Char} (h : c ∈ stripEol line) : c ∈ line := by
  rw [stripEol] at h
  split_ifs at h
  · apply (List.dropLast_sublist line).mem
    rcases chomp_cases line.dropLast with hchomp | hchomp
    · rwa [hchomp] at h
    · rw [hchomp]
      exact List.mem_append_left _ h
  · exact h

theorem mem_str (logical : Line) {c : Char} (h : c ∈ Script.str logical line) : c ∈ line := by
  rw [Script.str] at h
  split_ifs at h
  · exact h
  · exact (List.dropWhile_sublist _).mem h

theorem mem_join {logical : Line} {lines : List Line} {c : Char}
    (hline : line ∈ (Script.join logical lines).1 ++ [(Script.join logical lines).2])
    (hc : c ∈ line) : c ∈ logical ∨ ∃ l ∈ lines, c ∈ l := by
  induction lines generalizing logical with
  | nil =>
    rw [Script.join, List.nil_append, List.mem_singleton] at hline
    obtain rfl : line = logical := hline
    exact .inl hc
  | cons l lines ih =>
    rw [Script.join] at hline
    cases hl : continued (Script.str logical l) with
    | some u =>
      rw [hl] at hline
      rcases ih hline with hc | ⟨m, hm, hc⟩
      · rcases List.mem_append.mp hc with hc | hc
        · exact .inl hc
        · obtain ⟨v, hv, -⟩ := continued_iff.mp hl
          refine .inr ⟨l, by simp, mem_str logical ?_⟩
          rw [hv]
          exact List.mem_append_left _ hc
      · exact .inr ⟨m, by simp [hm], hc⟩
    | none =>
      rw [hl, List.cons_append, List.mem_cons] at hline
      rcases hline with rfl | hline
      · rcases List.mem_append.mp hc with hc | hc
        · exact .inl hc
        · exact .inr ⟨l, by simp, mem_str logical hc⟩
      · rcases ih hline with hc | ⟨m, hm, hc⟩
        · cases hc
        · exact .inr ⟨m, by simp [hm], hc⟩

theorem Written.no_nul (h : Written text)
    (hline : line ∈ (Script.logicalLines text).1 ++ [(Script.logicalLines text).2]) :
    '\x00' ∉ line := by
  intro hc
  rcases mem_join hline hc with hc | ⟨l, hl, hc⟩
  · cases hc
  · obtain ⟨l, hl', rfl⟩ := List.mem_map.mp hl
    exact (h.ascii _ (mem_physicalLines hl' (mem_stripEol hc))).1 rfl

theorem Written.getlines (h : Written text) :
    (physicalLines text).map getline = (physicalLines text).map stripEol :=
  List.map_congr_left fun line hline ↦ getline_eq (h.eol line hline)

/-- The web interface and the Perl scripts set the same options. -/
theorem Written.perl_settings (h : Written text) :
    (Script.logicalLines text).1.filterMap Perl.setting =
      (Script.logicalLines text).1.filterMap Script.setting :=
  List.filterMap_congr fun line hline ↦ (h.lines line hline).perl_setting

/-- The daemons set what the scripts set and what stands at the end of the file. -/
theorem Written.daemon_settings (h : Written text)
    (hclosed : Closed [] ((physicalLines text).map stripEol)) :
    Daemon.settings text = ((Script.logicalLines text).1 ++
      [(Script.logicalLines text).2]).filterMap Daemon.setting := by
  rw [Daemon.settings, h.getlines]
  exact join_settings Daemon.setting daemon_setting_nil
    (fun b line hb ↦ daemon_setting_append hb line) follows_none hclosed

theorem LineShape.daemon_setting_none (h : LineShape line)
    (hnot : ∀ name value, ¬Sets line name value) : Daemon.setting line = none := by
  cases h with
  | blank h => exact daemon_setting_blank h
  | comment h => exact daemon_setting_comment h
  | @setting _ name value h => exact absurd h (hnot name value)

theorem Clean.settings (hclean : Clean text) (h : Written text) :
    Daemon.settings text = (Script.logicalLines text).1.filterMap Script.setting := by
  rw [h.daemon_settings hclean.closed, List.filterMap_append, List.filterMap_cons,
    h.rest.daemon_setting_none hclean.finished, List.filterMap_nil, List.append_nil]
  apply List.filterMap_congr
  intro line hline
  exact (h.lines line hline).daemon_setting (h.no_nul (List.mem_append_left _ hline))
    (hclean.tidy line hline)

theorem foldl_set (config : Config) (settings : List Setting) :
    settings.foldl Config.set config =
      Web.merge config (settings.foldl Config.set fun _ ↦ none) := by
  induction settings using List.reverseRecOn with
  | nil => rfl
  | append_singleton settings s ih =>
    rw [List.foldl_append, List.foldl_append, ih]
    funext name
    by_cases hname : name = s.1
    · simp [Config.set, Web.merge, hname]
    · simp [Config.set, Web.merge, Function.update_of_ne hname]

theorem web_loadConfig (files : List Text) :
    Web.loadConfig files = files.foldl (fun config text ↦
      ((Script.logicalLines text).1.filterMap Script.setting).foldl Config.set config)
        fun _ ↦ none := by
  rw [Web.loadConfig]
  congr 1
  funext config text
  rw [foldl_set config]
  rfl

/-- A file whose one logical line sets an option, over however many physical lines. -/
def OneSetting (text : Text) : Prop :=
  ∃ line name value, Sets line name value ∧
    (Script.logicalLines text = ([line], []) ∨ Script.logicalLines text = ([], line))

theorem Sets.of_continued {u : Line} (h : Sets line name value) (hu : continued line = some u) :
    ∃ value' v, value = value' ++ '\\' :: v ∧ Sets u name value' := by
  obtain ⟨b, c, hb, hc, rfl, hname⟩ := h
  obtain ⟨v, hv, hblank⟩ := continued_iff.mp hu
  have hassoc : (b ++ (name ++ c)) ++ '=' :: value = u ++ '\\' :: v := by
    rw [← hv]
    simp
  rcases List.append_eq_append_iff.mp hassoc with ⟨w, hw, heq⟩ | ⟨w, hw, heq⟩
  · cases w with
    | nil => simp at heq
    | cons d w =>
      obtain ⟨rfl, rfl⟩ : '=' = d ∧ value = w ++ '\\' :: v := by simpa using heq
      exact ⟨w, v, rfl, b, c, hb, hc, by rw [hw]; simp, hname⟩
  · cases w with
    | nil => simp at heq
    | cons d w =>
      obtain ⟨-, rfl⟩ : '\\' = d ∧ v = w ++ '=' :: value := by simpa using heq
      exact absurd (hblank '=' (by simp)) (by decide)

theorem set_self (config : Config) (s : Setting) : config.set s s.1 = some s.2 := by
  rw [Config.set, Function.update_self]

theorem daemon_load_single {s : Setting} (h : Daemon.settings text = [s]) :
    Daemon.loadStaticConfig [text] s.1 = some s.2 := by
  rw [Daemon.loadStaticConfig, List.foldl_cons, List.foldl_nil, Daemon.processConfigfile, h]
  exact set_self (fun _ ↦ none) s

theorem web_load_single (text : Text) :
    Web.loadConfig [text] =
      ((Script.logicalLines text).1.filterMap Script.setting).foldl Config.set fun _ ↦ none := by
  rw [web_loadConfig]
  rfl

/-- The daemons read one setting as the scripts do only where the file is clean. -/
theorem Written.clean_of_agree (h : Written text) (hone : OneSetting text)
    (hagree : Daemon.loadStaticConfig [text] = Web.loadConfig [text]) : Clean text := by
  obtain ⟨line, name, value, hsets, hjoin | hjoin⟩ := hone
  · have hnul : '\x00' ∉ line := h.no_nul (by rw [hjoin]; simp)
    have hweb : Web.loadConfig [text] name = some (scriptValue value) := by
      rw [web_load_single, hjoin, List.filterMap_cons, hsets.script_setting]
      exact set_self (fun _ ↦ none) (name, scriptValue value)
    by_cases hclosed : Closed [] ((physicalLines text).map stripEol)
    · refine ⟨hclosed, ?_, ?_⟩
      · rw [hjoin]
        rintro name' value' ⟨b, c, -, -, hnil, -⟩
        simp at hnil
      · rw [hjoin]
        intro line' hline' name' value' hsets'
        obtain rfl := List.mem_singleton.mp hline'
        have hread := hsets'.script_setting
        rw [hsets.script_setting, Option.some.injEq, Prod.mk.injEq] at hread
        have hdaemon := h.daemon_settings hclosed
        rw [hjoin, List.singleton_append, List.filterMap_cons, hsets'.daemon_setting hnul,
          List.filterMap_cons, daemon_setting_nil] at hdaemon
        have hsome := daemon_load_single hdaemon
        rw [hagree, ← hread.1, hweb, Option.some.injEq, hread.2] at hsome
        exact value_eq_iff.mp hsome.symm
    · -- the daemons take the last backslash of the value for one that goes on
      obtain ⟨b, u, hb, hraw, hu⟩ := join_broken follows_none hjoin hclosed
      obtain ⟨value', v, rfl, hsets'⟩ := hsets.of_continued hu
      have hnul' : '\x00' ∉ b ++ u := by
        obtain ⟨w, hw, -⟩ := continued_iff.mp hu
        rw [hw] at hnul
        exact fun hmem ↦ hnul (List.mem_append_left _ hmem)
      have hsetting := hsets'.daemon_setting hnul'
      rw [daemon_setting_append hb] at hsetting
      have hdaemon : Daemon.settings text = [(name, daemonValue value')] := by
        rw [Daemon.settings, h.getlines, hraw, List.filterMap_cons, hsetting]
        rfl
      have hsome := daemon_load_single hdaemon
      rw [hagree, hweb, Option.some.injEq] at hsome
      exact absurd hsome.symm value_ne_of_backslash
  · have hnul : '\x00' ∉ line := h.no_nul (by rw [hjoin]; simp)
    have hdaemon := h.daemon_settings (closed_of_waiting (by
      rw [← Script.logicalLines, hjoin]))
    rw [hjoin, List.nil_append, List.filterMap_cons, hsets.daemon_setting hnul] at hdaemon
    have hsome := daemon_load_single hdaemon
    rw [hagree, web_load_single, hjoin] at hsome
    cases hsome

/-- The web interface and the Perl scripts read the same map from any files. The daemons read it
too where the files are clean, and not from a file with one setting that is not. -/
theorem loadConfig_agrees (files : List Text) (h : ∀ text ∈ files, Written text) :
    Web.loadConfig files = Perl.loadConfig files ∧
      ((∀ text ∈ files, Clean text) → Daemon.loadStaticConfig files = Web.loadConfig files) ∧
      ∀ text ∈ files, OneSetting text →
        (Daemon.loadStaticConfig [text] = Web.loadConfig [text] ↔ Clean text) := by
  have hagree : ∀ files : List Text, (∀ text ∈ files, Written text) →
      (∀ text ∈ files, Clean text) → Daemon.loadStaticConfig files = Web.loadConfig files := by
    intro files hwritten hclean
    rw [Daemon.loadStaticConfig, web_loadConfig]
    apply List.foldl_ext
    intro config text htext
    rw [Daemon.processConfigfile, (hclean text htext).settings (hwritten text htext)]
  refine ⟨?_, hagree files h, fun text htext hone ↦ ⟨(h text htext).clean_of_agree hone, ?_⟩⟩
  · rw [web_loadConfig, Perl.loadConfig]
    apply List.foldl_ext
    intro config text htext
    rw [Perl.processConfigfile, (h text htext).perl_settings]
  · intro hclean
    apply hagree
    · intro text' htext'
      rw [List.mem_singleton.mp htext']
      exact h text htext
    · intro text' htext'
      rw [List.mem_singleton.mp htext']
      exact hclean

theorem Sets.value_unique {name' value' : Line} (h : Sets line name value)
    (h' : Sets line name' value') : value' = value := by
  have hdrop : ∀ {name value : Line}, Sets line name value →
      line.dropWhile (fun c ↦ c ≠ '=') = '=' :: value := by
    rintro name value ⟨b, c, hb, hc, rfl, hname⟩
    have hne : ∀ l : Line, (∀ a ∈ l, blank a) → ∀ a ∈ l, decide (a ≠ '=') := by
      intro l hl a ha
      rw [decide_eq_true_eq]
      rintro rfl
      exact absurd (hl _ ha) (by decide)
    rw [List.dropWhile_append_of_pos (hne b hb),
      List.dropWhile_append_of_pos fun a ha ↦ decide_eq_true (hname.chars a ha).1,
      List.dropWhile_append_of_pos (hne c hc)]
    rfl
  have heq := (hdrop h').symm.trans (hdrop h)
  exact (List.cons.inj heq).2

section

variable (hlines : Script.logicalLines text = ([line], [])) (hsets : Sets line name value)

include hlines hsets

theorem written_of_one (hascii : ∀ c ∈ text, c ≠ '\x00' ∧ c.toNat < 128)
    (heol : ∀ line ∈ physicalLines text, '\r' ∉ stripEol line) : Written text := by
  refine ⟨hascii, heol, ?_, ?_⟩
  · rw [hlines]
    intro line' hline'
    rw [List.mem_singleton.mp hline']
    exact .setting hsets
  · rw [hlines]
    exact .blank (by simp)

theorem clean_of_one (hclosed : Closed [] ((physicalLines text).map stripEol))
    (htidy : Tidy value) : Clean text := by
  refine ⟨hclosed, ?_, ?_⟩
  · rw [hlines]
    rintro name' value' ⟨b, c, -, -, hnil, -⟩
    simp at hnil
  · rw [hlines]
    intro line' hline' name' value' hsets'
    obtain rfl := List.mem_singleton.mp hline'
    rw [hsets.value_unique hsets']
    exact htidy

end

theorem forall_of_all {p : Char → Prop} [DecidablePred p] {l : Line}
    (h : l.all (fun c ↦ p c) = true) : ∀ c ∈ l, p c := by
  simpa using h

theorem upperName_of_all (hupper : name.any Char.isUpper = true)
    (hchars : name.all (fun c ↦ c ≠ '=' ∧ Php.space c = false ∧ c.toUpper = c) = true)
    (hcomment : name.head? ≠ some '#') : UpperName name :=
  ⟨List.any_eq_true.mp hupper, forall_of_all hchars, hcomment⟩

/-- A quote after a blank stays where the daemons read it, a blank before the last quote does not. -/
theorem not_loadConfig_agrees :
    ¬∀ files : List Text, (∀ text ∈ files, Written text) →
      Daemon.loadStaticConfig files = Web.loadConfig files ∧
        Web.loadConfig files = Perl.loadConfig files := by
  intro h
  have hsets : Sets "ZM_DB_PASS = \"one \"".toList "ZM_DB_PASS".toList " \"one \"".toList :=
    ⟨[], [' '], by simp, forall_of_all (by decide), by decide,
      upperName_of_all (by decide) (by decide) (by decide)⟩
  have hwritten : Written "ZM_DB_PASS = \"one \"\n".toList :=
    written_of_one (by decide) hsets (forall_of_all (by decide)) (by decide)
  have hread := congrFun (h ["ZM_DB_PASS = \"one \"\n".toList] fun text htext ↦ by
    rw [List.mem_singleton.mp htext]
    exact hwritten).1 "ZM_DB_PASS".toList
  exact absurd hread (by decide)

/-- Two files, of which the second sets the option anew over two lines. -/
theorem loadConfig_agrees_continued :
    Web.loadConfig ["ZM_DB_PASS=one".toList, "\tZM_DB_PASS ='two\\\r\n three'  \r\n".toList] =
        Perl.loadConfig
          ["ZM_DB_PASS=one".toList, "\tZM_DB_PASS ='two\\\r\n three'  \r\n".toList] ∧
      Daemon.loadStaticConfig
          ["ZM_DB_PASS=one".toList, "\tZM_DB_PASS ='two\\\r\n three'  \r\n".toList] =
        Web.loadConfig
          ["ZM_DB_PASS=one".toList, "\tZM_DB_PASS ='two\\\r\n three'  \r\n".toList] := by
  have hname : UpperName "ZM_DB_PASS".toList :=
    upperName_of_all (by decide) (by decide) (by decide)
  have hone : Sets "ZM_DB_PASS=one".toList "ZM_DB_PASS".toList "one".toList :=
    ⟨[], [], by simp, by simp, by decide, hname⟩
  have htwo : Sets "\tZM_DB_PASS ='twothree'  ".toList "ZM_DB_PASS".toList
      "'twothree'  ".toList :=
    ⟨['\t'], [' '], forall_of_all (by decide), forall_of_all (by decide), by decide, hname⟩
  have hlines : Script.logicalLines "ZM_DB_PASS=one".toList = (["ZM_DB_PASS=one".toList], []) := by
    decide
  have hlines' : Script.logicalLines "\tZM_DB_PASS ='two\\\r\n three'  \r\n".toList =
      (["\tZM_DB_PASS ='twothree'  ".toList], []) := by
    decide
  have htidy : Tidy "one".toList := by
    refine ⟨⟨fun c hc ↦ ?_, forall_of_all (by decide), fun c hc hspace ↦ ?_⟩, ?_⟩
    · obtain rfl : 'o' = c := Option.some.inj hc
      rfl
    · obtain rfl : 'e' = c := Option.some.inj hc
      exact absurd hspace (by decide)
    · rintro ⟨c, hc, hblank⟩
      obtain rfl : 'o' = c := Option.some.inj hc
      exact absurd hblank (by decide)
  have htidy' : Tidy "'twothree'  ".toList := by
    refine ⟨⟨fun c hc ↦ ?_, forall_of_all (by decide), fun c hc hspace ↦ ?_⟩, ?_⟩
    · obtain rfl : '\'' = c := Option.some.inj hc
      rfl
    · exact ⟨'\'', rfl, rfl⟩
    · rintro ⟨c, hc, hblank⟩
      obtain rfl : '\'' = c := Option.some.inj hc
      exact absurd hblank (by decide)
  have h := loadConfig_agrees
    ["ZM_DB_PASS=one".toList, "\tZM_DB_PASS ='two\\\r\n three'  \r\n".toList] (by
      intro text htext
      rcases List.mem_pair.mp htext with rfl | rfl
      · exact written_of_one hlines hone (forall_of_all (by decide)) (by decide)
      · exact written_of_one hlines' htwo (forall_of_all (by decide)) (by decide))
  refine ⟨h.1, h.2.1 ?_⟩
  intro text htext
  rcases List.mem_pair.mp htext with rfl | rfl
  · exact clean_of_one hlines hone (closed_of_visible (by decide)) htidy
  · exact clean_of_one hlines' htwo (closed_of_visible (by decide)) htidy'

end ZoneMinder.ZmConf
