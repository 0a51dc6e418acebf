import LongPress.Proofs.FirstFault
import LongPress.Proofs.Shown

/-!
# LongPress.Proofs.WrittenOut

What is shown of a configuration is a settings file again.

The file has the header and a line for each setting. Every line is one that may stand there
(`allProper_sourceLines`), because each value is one that its own setting takes back. For a duration
that needs a value within its bounds, and the values of an accepted file are (`admits_of_compile`):
they were read from it or were there to begin with.

The file assigns every setting the value that it has, so no more than `Follows` is needed to know
what it describes (`toSettings_eq_of_follows`).

* `compile_sourceLines` — the main statement.
-/

namespace LongPress

open Assignment (statementOf)

/-! ## Lines of a text -/

namespace Text

/-- Whole lines are cut at their ends. -/
theorem splitAll_withEnds {lines : List (List Char)} (h : ∀ line ∈ lines, '\n' ∉ line) :
    splitAll '\n' (withEnds lines) = lines ++ [[]] := by
  induction lines with
  | nil => rfl
  | cons line rest ih =>
    obtain ⟨hline, hrest⟩ := List.forall_mem_cons.mp h
    rw [withEnds_cons, splitAll_append hline, ih hrest]
    rfl

/-- Lines with an end between them are cut there. -/
theorem splitAll_intercalate {line : List Char} {rest : List (List Char)}
    (h : ∀ l ∈ line :: rest, '\n' ∉ l) :
    splitAll '\n' (['\n'].intercalate (line :: rest)) = line :: rest := by
  induction rest generalizing line with
  | nil => rw [List.intercalate_singleton, splitAll_of_not_mem (h line List.mem_cons_self)]
  | cons next rest ih =>
    obtain ⟨hline, hrest⟩ := List.forall_mem_cons.mp h
    rw [List.intercalate_cons_cons, List.append_assoc, List.singleton_append,
      splitAll_append hline, ih hrest]

end Text

/-! ## Accepted assignments -/

theorem Assignment.exists_of_lastText? {setting text : String} {written : List Assignment}
    (h : lastText? setting written = some text) :
    ∃ a ∈ written, a.setting = setting ∧ a.value = text := by
  obtain ⟨a, ha, rfl⟩ := Option.map_eq_some_iff.mp h
  have hmem := List.mem_filter.mp (List.mem_of_getLast? ha)
  exact ⟨a, hmem.1, of_decide_eq_true hmem.2, rfl⟩

/-- If all assignments of a setting write the same, so does the last one. -/
theorem Assignment.lastText?_eq {setting text : String} {written : List Assignment}
    (hmem : ∃ a ∈ written, a.setting = setting)
    (h : ∀ a ∈ written, a.setting = setting → a.value = text) :
    lastText? setting written = some text := by
  cases hlast : lastText? setting written with
  | some other =>
    obtain ⟨a, ha, hname, rfl⟩ := exists_of_lastText? hlast
    rw [h a ha hname]
  | none =>
    obtain ⟨a, ha, hname⟩ := hmem
    have hnil : written.filter (·.setting = setting) = [] :=
      List.getLast?_eq_none_iff.mp (Option.map_eq_none_iff.mp hlast)
    have hfalse := List.filter_eq_nil_iff.mp hnil a ha
    simp [hname] at hfalse

/-- Putting a setting into its slot assigns that slot. -/
theorem Config.get_assigned_set {q : Property} (hq : q.Placed) (c : Config) (slot : Slot) :
    slot.get (c.set q).assigned = true ↔ q.index = slot.index ∨ slot.get c.assigned = true := by
  obtain ⟨place, hplace⟩ := hq.exists_slot
  rw [set, set?_eq hplace, Option.getD_some, setSlot, Slot.get_set, hplace, Slot.index_inj]
  split
  · next h => simp [h]
  · next h => simp [h]

namespace Reading

variable {r r' : Reading} {lines : List Fragment}

/-- Every assignment of lines that are read has been taken. -/
theorem exists_assign_of_readLines (h : r.readLines lines = .ok r') :
    ∀ a ∈ (lines.map (·.text)).filterMap Assignment.ofLine?,
      ∃ p q, Property.named? a.name = some p ∧ p.assign a.value = .ok q := by
  induction lines generalizing r with
  | nil =>
    intro a ha
    cases ha
  | cons line rest ih =>
    unfold readLines at h
    split at h
    · next next hnext =>
      rcases config_of_readLine hnext with ⟨hnone, -⟩ | ⟨b, p, q, hb, hp, hq, -⟩
      · rw [List.map_cons, List.filterMap_cons_none hnone]
        exact ih h
      · rw [List.map_cons, List.filterMap_cons_some hb]
        exact List.forall_mem_cons.mpr ⟨⟨p, q, hp, hq⟩, ih h⟩
    · cases h

/-- A slot is assigned if a line assigns a setting in it, or if it was before. -/
theorem assigned_of_readLines (h : r.readLines lines = .ok r') (slot : Slot) :
    slot.get r'.config.assigned = true ↔ slot.get r.config.assigned = true ∨
      ∃ a ∈ (lines.map (·.text)).filterMap Assignment.ofLine?,
        ∃ p, Property.named? a.name = some p ∧ p.index = slot.index := by
  induction lines generalizing r with
  | nil =>
    obtain rfl := Except.ok.inj h
    simp
  | cons line rest ih =>
    unfold readLines at h
    split at h
    · next next hnext =>
      rcases config_of_readLine hnext with ⟨hnone, hc⟩ | ⟨b, p, q, hb, hp, hq, hc⟩
      · rw [List.map_cons, List.filterMap_cons_none hnone, ih h, hc]
      · have hplaced := (Property.placed_of_mem _ (Property.mem_all_of_named? hp)).of_assign hq
        have hhere : (∃ p', Property.named? b.name = some p' ∧ p'.index = slot.index) ↔
            p.index = slot.index := by simp [hp]
        rw [List.map_cons, List.filterMap_cons_some hb, ih h, hc, Config.get_assigned_set hplaced,
          Property.index_of_assign hq]
        simp only [List.mem_cons, or_and_right, exists_or, exists_eq_left, hhere]
        rw [or_assoc, or_left_comm]
    · cases h

end Reading

/-! ## Accepted files -/

section

variable {source : String} {c : Config}

theorem exists_assign_of_compile (h : compile source = .ok c) :
    ∀ a ∈ Assignment.inSource source,
      ∃ p q, Property.named? a.name = some p ∧ p.assign a.value = .ok q := by
  obtain ⟨r, hread, -⟩ := exists_readLines_of_compile h
  have htaken := Reading.exists_assign_of_readLines hread
  rwa [Fragment.lines, Fragment.map_text_linesFrom] at htaken

/-- A slot is assigned exactly if the file assigns a setting in it. -/
theorem assigned_of_compile (h : compile source = .ok c) (slot : Slot) :
    slot.get c.assigned = true ↔ ∃ a ∈ Assignment.inSource source,
      ∃ p, Property.named? a.name = some p ∧ p.index = slot.index := by
  obtain ⟨r, hread, rfl⟩ := exists_readLines_of_compile h
  have hbefore : ∀ s : Slot, s.get ({} : Reading).config.assigned = false := by decide
  have hassigned := Reading.assigned_of_readLines hread slot
  rw [Fragment.lines, Fragment.map_text_linesFrom, hbefore slot] at hassigned
  exact hassigned.trans (or_iff_right Bool.false_ne_true)

/-- Every setting of an accepted file has a value that the file could give it. -/
theorem admits_of_compile (h : compile source = .ok c) :
    ∀ entry ∈ Property.all, entry.2.Admits (c.toSettings.valueOf entry.2) := by
  intro entry hentry
  have hvalue := (Config.follows_of_compile h).value entry hentry
  unfold Property.due? at hvalue
  split at hvalue
  · rw [Option.some.inj hvalue]
    exact Property.admits_value_of_mem entry hentry
  · next text htext =>
    obtain ⟨a, ha, hname, rfl⟩ := Assignment.exists_of_lastText? htext
    obtain ⟨p, q, hp, hq⟩ := exists_assign_of_compile h a ha
    obtain rfl : (a.setting, p) = entry :=
      Property.eq_of_mem _ (Property.mem_all_of_named? hp) _ hentry hname
    rw [Property.written?_of_assign hq] at hvalue
    rw [Option.some.inj hvalue]
    exact Property.admits_of_assign hq

end

/-! ## The file that is made -/

/-- A line that assigns a setting. -/
def settingSource (setting : String × String) : String := setting.1 ++ " = " ++ setting.2

namespace Config

/-- The lines of a settings file that says what is shown of a configuration. -/
def sourceLines (c : Config) : List String := "[global]" :: c.describe.map settingSource

end Config

/-! ## Its lines -/

section

variable {name value : String}

theorem toList_settingSource (name value : String) :
    (settingSource (name, value)).toList = name.toList ++ [' '] ++ '=' :: ' ' :: value.toList := by
  simp [settingSource]

/-- The line of a setting is nothing but its statement. -/
theorem statementOf_settingSource (hname : Text.IsToken name.toList)
    (hvalue : Text.IsToken value.toList) :
    statementOf (settingSource (name, value)).toList = (settingSource (name, value)).toList := by
  have hcomment : '#' ∉ (settingSource (name, value)).toList := by
    simp [toList_settingSource, hname.comment_not_mem, hvalue.comment_not_mem]
  rw [statementOf, List.takeWhile_eq_self_iff.mpr (Text.decide_ne_of_not_mem hcomment)]
  apply Text.trim_of_ends
  · intro c hc
    rw [toList_settingSource, List.append_assoc, List.head?_append_of_ne_nil _ hname.isWord.1] at hc
    exact hname.isWord.2 c (List.mem_of_head? hc)
  · intro c hc
    have hlast : name.toList ++ [' '] ++ '=' :: ' ' :: value.toList =
        (name.toList ++ [' ', '=', ' ']) ++ value.toList := by simp
    rw [toList_settingSource, hlast, List.getLast?_append_of_ne_nil _ hvalue.isWord.1] at hc
    exact hvalue.isWord.2 c (List.mem_of_getLast? hc)

theorem trim_name (hname : Text.IsToken name.toList) :
    Text.trim (name.toList ++ [' ']) = name.toList := by
  have h : Text.trim ([] ++ name.toList ++ [' ']) = name.toList :=
    Text.trim_append (by simp) (List.forall_mem_singleton.mpr (by decide)) hname.isWord.2
  exact h

theorem trim_value (hvalue : Text.IsToken value.toList) :
    Text.trim (' ' :: value.toList) = value.toList := by
  have h : Text.trim ([' '] ++ value.toList ++ []) = value.toList :=
    Text.trim_append (List.forall_mem_singleton.mpr (by decide)) (by simp) hvalue.isWord.2
  rwa [List.append_nil] at h

/-- A line assigns its value to its setting, if the setting takes it. -/
theorem isAssignment_settingSource {p q : Property} (hname : Text.IsToken name.toList)
    (hvalue : Text.IsToken value.toList) (hp : Property.named? name = some p)
    (hq : p.assign value = .ok q) :
    Statement.IsAssignment (settingSource (name, value)).toList := by
  have hequals : '=' ∉ name.toList ++ [' '] := by simp [hname.equals_not_mem]
  refine ⟨name.toList ++ [' '], ' ' :: value.toList, p, q, toList_settingSource name value,
    hequals, ?_, ?_, ?_, ?_⟩
  · rw [trim_name hname]
    exact hname.isWord.1
  · rwa [trim_name hname, String.ofList_toList]
  · rw [trim_value hvalue]
    exact hvalue.isWord
  · rwa [trim_value hvalue, String.ofList_toList]

theorem ofLine?_settingSource (hname : Text.IsToken name.toList)
    (hvalue : Text.IsToken value.toList) (hbracket : name.toList.head? ≠ some '[') :
    Assignment.ofLine? (settingSource (name, value)).toList = some ⟨name, value⟩ := by
  have hstatement := statementOf_settingSource hname hvalue
  have hhead : (statementOf (settingSource (name, value)).toList).head? = name.toList.head? := by
    rw [hstatement, toList_settingSource, List.append_assoc,
      List.head?_append_of_ne_nil _ hname.isWord.1]
  have hequals : ∀ c ∈ name.toList ++ [' '], decide (c ≠ '=') = true :=
    Text.decide_ne_of_not_mem (by simp [hname.equals_not_mem])
  rw [Assignment.ofLine?_of_other, hstatement, toList_settingSource,
    List.takeWhile_append_of_pos hequals, List.dropWhile_append_of_pos hequals]
  · simp [trim_name hname, trim_value hvalue]
  · intro hnil
    rw [hnil] at hhead
    exact hname.isWord.1 (List.head?_eq_none_iff.mp hhead.symm)
  · intro rest hrest
    rw [hrest] at hhead
    exact hbracket hhead.symm

end

/-- Lines after a header may stand there if they assign a setting or say nothing. -/
theorem Line.allProper_cons {header : List Char} {rest : List (List Char)}
    (hheader : Statement.IsHeader (statementOf header))
    (hrest : ∀ line ∈ rest, statementOf line = [] ∨ Statement.IsAssignment (statementOf line)) :
    Line.AllProper (header :: rest) := by
  intro before line after he
  cases before with
  | nil =>
    obtain rfl := (List.cons.inj he).1
    exact .inr (.inl hheader)
  | cons first before =>
    obtain ⟨rfl, htail⟩ := List.cons.inj he
    have hmem : line ∈ rest := by
      rw [htail]
      exact List.mem_append_right _ List.mem_cons_self
    rcases hrest line hmem with hnil | hassignment
    · exact .inl hnil
    · exact .inr (.inr ⟨⟨_, List.mem_cons_self, hheader⟩, hassignment⟩)

namespace Config

variable {c : Config} {tail : List (List Char)}

/-- The lines that assign the settings. -/
theorem sourceLines_eq (c : Config) :
    c.sourceLines = "[global]" ::
      Property.all.map fun entry => settingSource (entry.1, c.shown entry.2) := by
  rw [sourceLines, describe_eq, List.map_map]
  rfl

theorem newline_not_mem_sourceLines (c : Config) :
    ∀ line ∈ c.sourceLines.map String.toList, '\n' ∉ line := by
  rw [sourceLines_eq, List.map_cons, List.map_map]
  refine List.forall_mem_cons.mpr ⟨by decide, ?_⟩
  intro line hline
  obtain ⟨entry, hentry, rfl⟩ := List.mem_map.mp hline
  have hname := (Property.isToken_of_mem entry hentry).newline_not_mem
  have hvalue := (c.isToken_shown entry.2).newline_not_mem
  simp [toList_settingSource, hname, hvalue]

/-- Each setting takes back the text that shows it. -/
theorem exists_assign_shown
    (h : ∀ entry ∈ Property.all, entry.2.Admits (c.toSettings.valueOf entry.2)) :
    ∀ entry ∈ Property.all, ∃ q, entry.2.assign (c.shown entry.2) = .ok q ∧
      q.value = c.toSettings.valueOf entry.2 := by
  intro entry hentry
  have hadmits := h entry hentry
  rw [Property.valueOf_eq_valueIn _ entry hentry] at hadmits ⊢
  exact Property.assign_valueText hadmits

theorem allProper_sourceLines
    (h : ∀ entry ∈ Property.all, entry.2.Admits (c.toSettings.valueOf entry.2))
    (htail : ∀ line ∈ tail, line = []) :
    Line.AllProper (c.sourceLines.map String.toList ++ tail) := by
  rw [sourceLines_eq, List.map_cons, List.map_map, List.cons_append]
  apply Line.allProper_cons
  · exact ⟨"global".toList, by decide, by decide⟩
  · intro line hline
    rcases List.mem_append.mp hline with hline | hline
    · obtain ⟨entry, hentry, rfl⟩ := List.mem_map.mp hline
      obtain ⟨q, hq, -⟩ := exists_assign_shown h entry hentry
      have hname := Property.isToken_of_mem entry hentry
      have hvalue := c.isToken_shown entry.2
      refine .inr ?_
      rw [Function.comp_apply, statementOf_settingSource hname hvalue]
      exact isAssignment_settingSource hname hvalue (Property.named?_of_mem entry hentry) hq
    · rw [htail line hline]
      exact .inl rfl

theorem filterMap_sourceLines (c : Config) (htail : ∀ line ∈ tail, line = []) :
    (c.sourceLines.map String.toList ++ tail).filterMap Assignment.ofLine? =
      Property.all.map fun entry => ⟨entry.1, c.shown entry.2⟩ := by
  have hbracket : ∀ entry ∈ Property.all, entry.1.toList.head? ≠ some '[' := by decide
  have hheader : Assignment.ofLine? "[global]".toList = none := by decide
  have hnone : tail.filterMap Assignment.ofLine? = [] := by
    rw [List.filterMap_eq_nil_iff]
    intro line hline
    rw [htail line hline]
    rfl
  rw [sourceLines_eq, List.map_cons, List.map_map, List.filterMap_append, hnone, List.append_nil,
    List.filterMap_cons_none hheader, List.filterMap_map]
  apply List.filterMap_eq_map_iff_forall_eq_some.mpr
  intro entry hentry
  exact ofLine?_settingSource (Property.isToken_of_mem entry hentry) (c.isToken_shown entry.2)
    (hbracket entry hentry)

/-- The words of a configuration, all of them assigned. -/
def assignAll (c : Config) : Config := { c with assigned := Vector.replicate 5 true }

theorem get_assignAll (c : Config) (slot : Slot) : slot.get c.assignAll.assigned = true := by
  rw [assignAll, Slot.get, Vector.getElem_replicate]

/-- A configuration that follows the lines that were made has the words that they were made of. -/
theorem toSettings_eq_of_follows {d : Config} {written : List Assignment}
    (h : ∀ entry ∈ Property.all, entry.2.Admits (c.toSettings.valueOf entry.2))
    (honly : c.toSettings.OnlySwitches) (hd : d.Follows written)
    (hwritten : written = Property.all.map fun entry => ⟨entry.1, c.shown entry.2⟩) :
    d.toSettings = c.toSettings := by
  have hnames : ∀ entry ∈ Property.all, entry.1 ≠ "auto_shift_delay" := by decide
  refine Settings.eq_of_valueOf hd.onlySwitches honly ?_
  intro entry hentry
  have hlast : Assignment.lastText? entry.1 written = some (c.shown entry.2) := by
    subst hwritten
    apply Assignment.lastText?_eq
    · exact ⟨_, List.mem_map_of_mem hentry, if_neg (hnames entry hentry)⟩
    · intro a ha hname
      obtain ⟨other, hother, rfl⟩ := List.mem_map.mp ha
      rw [Assignment.setting, if_neg (hnames other hother)] at hname
      rw [Property.eq_of_mem _ hother _ hentry hname]
  obtain ⟨q, hq, hvalue⟩ := exists_assign_shown h entry hentry
  have hdue := hd.value entry hentry
  rw [Property.due?, hlast] at hdue
  exact Option.some.inj (hdue.trans ((Property.written?_of_assign hq).trans (congrArg _ hvalue)))

/-- A file that has the lines that were made, and at most empty lines after them, describes what
they were made of. -/
theorem compile_of_splitAll {source text : String} (h : compile source = .ok c)
    (hlines : Text.splitAll '\n' text.toList = c.sourceLines.map String.toList ++ tail)
    (htail : ∀ line ∈ tail, line = []) : compile text = .ok c.assignAll := by
  have hadmits := admits_of_compile h
  obtain ⟨d, hd⟩ : ∃ d, compile text = .ok d := by
    rw [exists_compile_iff, hlines]
    exact allProper_sourceLines hadmits htail
  have hwritten : Assignment.inSource text =
      Property.all.map fun entry => ⟨entry.1, c.shown entry.2⟩ := by
    rw [Assignment.inSource, hlines, filterMap_sourceLines c htail]
  have hvalues : d.values = c.values := congrArg Settings.table
    (toSettings_eq_of_follows hadmits (follows_of_compile h).onlySwitches (follows_of_compile hd)
      hwritten)
  have hslot : ∀ slot : Slot, ∃ entry ∈ Property.all, entry.2.index = slot.index := by decide
  have hassigned : ∀ slot : Slot, slot.get d.assigned = true := by
    intro slot
    obtain ⟨entry, hentry, hindex⟩ := hslot slot
    rw [assigned_of_compile hd, hwritten]
    exact ⟨_, List.mem_map_of_mem hentry, entry.2, Property.named?_of_mem entry hentry, hindex⟩
  rw [hd, Except.ok.injEq]
  apply eq_of_get
  · intro slot
    rw [hvalues]
    rfl
  · intro slot
    rw [hassigned, get_assignAll]

/-! ## The main statement -/

/-- **What is shown of a configuration can be compiled.**  Take what is shown of the configuration
that a settings file describes, and make a file of it: the header, and a line for each setting with
its name and its value. That file is accepted, whether or not its last line has an end. It describes
the same five words and shows the same, and every slot is assigned. -/
theorem compile_sourceLines {source : String} {c : Config} (h : compile source = .ok c) :
    ∃ d : Config,
      compile (String.join (c.sourceLines.map (· ++ "\n"))) = .ok d ∧
        compile ("\n".intercalate c.sourceLines) = .ok d ∧
        d.values = c.values ∧ d.describe = c.describe ∧
        ∀ slot : Slot, slot.get d.assigned = true := by
  have hnewline := c.newline_not_mem_sourceLines
  have hjoined : Text.splitAll '\n' (String.join (c.sourceLines.map (· ++ "\n"))).toList =
      c.sourceLines.map String.toList ++ [[]] := by
    have htext : (String.join (c.sourceLines.map (· ++ "\n"))).toList =
        Text.withEnds (c.sourceLines.map String.toList) := by
      simp [String.toList_join, Text.withEnds, List.flatMap_map]
    rw [htext, Text.splitAll_withEnds hnewline]
  have hbetween : Text.splitAll '\n' ("\n".intercalate c.sourceLines).toList =
      c.sourceLines.map String.toList ++ [] := by
    have hend : "\n".toList = ['\n'] := rfl
    rw [String.toList_intercalate, hend, List.append_nil]
    exact Text.splitAll_intercalate hnewline
  refine ⟨c.assignAll, compile_of_splitAll h hjoined (by simp),
    compile_of_splitAll h hbetween (by simp), rfl, ?_, c.get_assignAll⟩
  rw [describe_eq, describe_eq]
  rfl

/-- A file that uses an old name and the ends of two ranges. -/
def outermost : String :=
  "[global]\nauto_shift_delay = 0\ntapping_term = 5000\ntap_code_delay = +100\n" ++
    "retro_shift = yes\nauto_shift_alpha = off\n"

/-- What it describes. -/
def outermostConfig : Config where
  values := #v[0, 5000, 500, 100,
    Flag.digits ||| Flag.symbols ||| Flag.extras ||| Flag.repeats ||| Flag.dualRole]
  assigned := #v[true, true, false, true, true]

/-- The file that is made of what is shown of it. -/
def outermostSource : String :=
  "[global]\nauto_shift_timeout = 0\ntapping_term = 5000\nretro_shift_timeout = 500\n" ++
    "tap_code_delay = 100\nauto_shift_alpha = false\nauto_shift_numeric = true\n" ++
    "auto_shift_special = true\nauto_shift_custom = true\nauto_shift_modifiers = false\n" ++
    "auto_shift_repeat = true\nauto_shift_no_auto_repeat = false\nretro_shift = true\n" ++
    "hold_on_other_key_press = false\nignore_mod_tap_interrupt = false\n"

theorem compile_sourceLines_of_outermost :
    compile outermost = .ok outermostConfig ∧
      String.join (outermostConfig.sourceLines.map (· ++ "\n")) = outermostSource ∧
      ∃ d : Config, compile outermostSource = .ok d ∧ d.values = outermostConfig.values ∧
        d.describe = outermostConfig.describe ∧ ∀ slot : Slot, slot.get d.assigned = true := by
  have hcompile : compile outermost = .ok outermostConfig := by decide +kernel
  have hsource : String.join (outermostConfig.sourceLines.map (· ++ "\n")) = outermostSource := by
    decide +kernel
  obtain ⟨d, hd, -, hrest⟩ := compile_sourceLines hcompile
  rw [hsource] at hd
  exact ⟨hcompile, hsource, d, hd, hrest⟩

end Config

end LongPress
