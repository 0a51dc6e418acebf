import LongPress.Proofs.Pieces

/-!
# LongPress.Proofs.Layout

How a settings file is laid out does not matter.

A line is cut down to its statement before anything looks at it, and where the line stands in the
file is only used for spans. So all that a file leads to, up to the places of faults, can be told
from its statements alone: `readStatement` reads a statement that stands nowhere, and reading a file
is reading its statements one after the other, without the empty ones (`mapError_compile`).

What is left to show is that a change of layout keeps the statements. Blanks and comments never get
into a statement (`statementOf_of_dressed`), and an inserted line has an empty one
(`statements_of_relaid`).

* `compile_of_relaid` — the main statement.
-/

namespace LongPress

open Assignment (statementOf)

/-! ## Statements and layout -/

namespace Layout

/-- The statements of some lines. Lines that say nothing have none. -/
def statements (lines : List (List Char)) : List (List Char) :=
  (lines.map statementOf).filter (· ≠ [])

/-- What may become of a line when its file is laid out anew. -/
inductive Dressed : List Char → List Char → Prop where
  | same (line : List Char) : Dressed line line
  | blanksBefore {line next blanks : List Char} (h : Dressed line next)
    (hblanks : ∀ c ∈ blanks, Text.isBlank c = true) : Dressed line (blanks ++ next)
  | blanksAfter {line next blanks : List Char} (h : Dressed line next)
    (hblanks : ∀ c ∈ blanks, Text.isBlank c = true) : Dressed line (next ++ blanks)
  | comment {line next : List Char} (h : Dressed line next) (text : List Char) :
    Dressed line (next ++ '#' :: text)
  /-- The line ends in two characters, carriage return and line feed. -/
  | carriageReturn {line next : List Char} (h : Dressed line next) : Dressed line (next ++ ['\r'])

/-- Lines that are laid out anew: each line may change, and lines that say nothing may come in
anywhere. -/
inductive Relaid : List (List Char) → List (List Char) → Prop where
  | nil : Relaid [] []
  | line {line next : List Char} {rest others : List (List Char)} (h : Dressed line next)
    (hrest : Relaid rest others) : Relaid (line :: rest) (next :: others)
  | blankLine {blanks : List Char} {lines others : List (List Char)}
    (hblanks : ∀ c ∈ blanks, Text.isBlank c = true) (hrest : Relaid lines others) :
    Relaid lines (blanks :: others)
  | commentLine {blanks : List Char} {lines others : List (List Char)}
    (hblanks : ∀ c ∈ blanks, Text.isBlank c = true) (text : List Char)
    (hrest : Relaid lines others) : Relaid lines ((blanks ++ '#' :: text) :: others)

variable {blanks line next : List Char} {lines others : List (List Char)}

theorem statementOf_blanks_append (h : ∀ c ∈ blanks, Text.isBlank c = true) (line : List Char) :
    statementOf (blanks ++ line) = statementOf line := by
  have hmark : '#' ∉ blanks := fun hmem => absurd (h '#' hmem) (by decide)
  rw [statementOf, List.takeWhile_append_of_pos (Text.decide_ne_of_not_mem hmark),
    Text.trim_blanks_append h, statementOf]

theorem statementOf_append_blanks (h : ∀ c ∈ blanks, Text.isBlank c = true) (line : List Char) :
    statementOf (line ++ blanks) = statementOf line := by
  unfold statementOf
  rw [List.takeWhile_append]
  split
  · next hlength =>
    -- There is no comment yet, and none begins among the blanks.
    have hline : line.takeWhile (· ≠ '#') = line :=
      (List.takeWhile_prefix _).eq_of_length hlength
    rw [hline, Text.trim_append_blanks]
    exact fun c hc => h c ((List.takeWhile_sublist _).subset hc)
  · rfl

theorem statementOf_append_comment (line text : List Char) :
    statementOf (line ++ '#' :: text) = statementOf line := by
  unfold statementOf
  rw [List.takeWhile_append]
  split
  · next hlength =>
    rw [(List.takeWhile_prefix _).eq_of_length hlength]
    simp
  · rfl

/-- A line that is laid out anew says what it said. -/
theorem statementOf_of_dressed (h : Dressed line next) : statementOf next = statementOf line := by
  induction h with
  | same => rfl
  | blanksBefore _ hblanks ih => rw [statementOf_blanks_append hblanks, ih]
  | blanksAfter _ hblanks ih => rw [statementOf_append_blanks hblanks, ih]
  | comment _ text ih => rw [statementOf_append_comment, ih]
  | carriageReturn _ ih =>
    rw [statementOf_append_blanks (List.forall_mem_singleton.mpr (by decide)), ih]

theorem statementOf_blanks (h : ∀ c ∈ blanks, Text.isBlank c = true) : statementOf blanks = [] := by
  rw [← List.append_nil blanks, statementOf_blanks_append h]
  rfl

theorem statements_cons_of_ne (h : statementOf line ≠ []) (rest : List (List Char)) :
    statements (line :: rest) = statementOf line :: statements rest := by
  simp [statements, h]

theorem statements_cons_of_nil (h : statementOf line = []) (rest : List (List Char)) :
    statements (line :: rest) = statements rest := by
  simp [statements, h]

/-- Lines that are laid out anew have the same statements. -/
theorem statements_of_relaid (h : Relaid lines others) : statements others = statements lines := by
  induction h with
  | nil => rfl
  | line hline _ ih =>
    unfold statements at ih ⊢
    rw [List.map_cons, List.map_cons, statementOf_of_dressed hline, List.filter_cons,
      List.filter_cons, ih]
  | blankLine hblanks _ ih => rw [statements_cons_of_nil (statementOf_blanks hblanks), ih]
  | commentLine hblanks text _ ih =>
    have hnil : statementOf (_ ++ '#' :: text) = [] :=
      (statementOf_append_comment _ text).trans (statementOf_blanks hblanks)
    rw [statements_cons_of_nil hnil, ih]

end Layout

/-! ## Reading statements -/

namespace Reading

variable {r : Reading} {f g : Fragment}

/-- Reads a statement of which the place is not known. -/
def readStatement (r : Reading) (text : List Char) : Except Fault Reading :=
  let f : Fragment := ⟨0, text⟩
  (if text.head? = some '[' then r.readHeader f else r.readAssignment f).mapError (·.fault)

/-- The place of a header only matters for spans. -/
theorem mapError_readHeader (h : f.text = g.text) :
    (r.readHeader f).mapError (·.fault) = (r.readHeader g).mapError (·.fault) := by
  unfold readHeader
  rw [h]
  cases headerName? g.text with
  | none => rfl
  | some name => dsimp only; split <;> rfl

theorem mapError_assign {name value name' value' : Fragment} (hname : name.text = name'.text)
    (hvalue : value.text = value'.text) :
    (r.assign name value).mapError (·.fault) = (r.assign name' value').mapError (·.fault) := by
  unfold assign
  rw [hname, hvalue]
  cases Property.named (String.ofList name'.text) with
  | error e => rfl
  | ok p => dsimp only; split <;> rfl

/-- Neither does the place of an assignment. -/
theorem mapError_readAssignment (h : f.text = g.text) :
    (r.readAssignment f).mapError (·.fault) = (r.readAssignment g).mapError (·.fault) := by
  unfold readAssignment Fragment.splitFirst?
  rw [h]
  split
  · cases Text.splitFirst? '=' g.text with
    | none => rfl
    | some parts =>
      simp only [Option.map_some, Fragment.trim, Fragment.fromBlank?]
      by_cases hname : Text.trim parts.1 = []
      · simp only [hname, if_true]
        rfl
      · by_cases hvalue : Text.trim parts.2 = []
        · simp only [hname, hvalue, if_true, if_false]
          rfl
        · simp only [hname, hvalue, if_false]
          cases (Text.trim parts.2).dropWhile (!Text.isBlank ·) with
          | nil => exact mapError_assign rfl rfl
          | cons c rest => rfl
  · rfl

/-- A line is read as its statement is. -/
theorem mapError_readLine {line : Fragment} (h : statementOf line.text ≠ []) :
    (r.readLine line).mapError (·.fault) = r.readStatement (statementOf line.text) := by
  rw [← Fragment.text_statement] at h ⊢
  unfold readStatement
  split
  · next hheader =>
    obtain ⟨tail, htail⟩ := List.head?_eq_some_iff.mp hheader
    rw [readLine_of_header htail]
    exact mapError_readHeader rfl
  · next hother =>
    rw [readLine_of_other h hother]
    exact mapError_readAssignment rfl

theorem mapError_readLines (r : Reading) (lines : List Fragment) :
    (r.readLines lines).mapError (·.fault) =
      (Layout.statements (lines.map (·.text))).foldlM readStatement r := by
  induction lines generalizing r with
  | nil => rfl
  | cons line rest ih =>
    rw [List.map_cons, readLines]
    by_cases hnil : statementOf line.text = []
    · rw [readLine_of_nil ((Fragment.text_statement line).trans hnil),
        Layout.statements_cons_of_nil hnil]
      exact ih r
    · rw [Layout.statements_cons_of_ne hnil, List.foldlM_cons, ← mapError_readLine hnil]
      cases r.readLine line with
      | error e => rfl
      | ok next => exact ih next

end Reading

/-- What a file leads to depends on its statements. -/
theorem mapError_compile (source : String) :
    (compile source).mapError (·.fault) =
      ((Layout.statements (Text.splitAll '\n' source.toList)).foldlM Reading.readStatement {}).map
        (·.config) := by
  have hread := Reading.mapError_readLines {} (Fragment.lines source.toList)
  rw [Fragment.lines, Fragment.map_text_linesFrom] at hread
  rw [← hread, compile, Fragment.lines]
  cases ({} : Reading).readLines (Fragment.linesFrom 0 (Text.splitAll '\n' source.toList)) <;> rfl

/-! ## The main statement -/

namespace Layout

/-- **The layout of a settings file does not matter.**  Whatever blanks come around its lines and
whatever comments behind them, whether its lines end in one character or in two, and whatever blank
lines and comments come between them: the file describes the same configuration, or is refused with
the same message. -/
theorem compile_of_relaid {source other : String}
    (h : Relaid (Text.splitAll '\n' source.toList) (Text.splitAll '\n' other.toList)) :
    (compile other).mapError (·.diagnostic.message) =
      (compile source).mapError (·.diagnostic.message) := by
  have hfault : (compile other).mapError (·.fault) = (compile source).mapError (·.fault) := by
    rw [mapError_compile, mapError_compile, statements_of_relaid h]
  have hmessage : ∀ result : Except SourceError Config,
      result.mapError (·.diagnostic.message) =
        (result.mapError (·.fault)).mapError Fault.message := by
    intro result
    cases result <;> rfl
  rw [hmessage, hmessage, hfault]

/-- A settings file without any ornament. -/
def bare : String := "[global]\nretro_shift = on\n"

/-- The same file laid out anew. -/
def adorned : String :=
  "# mine\r\n\t[global]\u3000# all\r\n \nretro_shift = on #= off\r\n"

/-- A file that is refused, and the same file laid out anew. -/
def bareFaulty : String := "[global]\nretro_shift = maybe\n=\n"

def adornedFaulty : String := "[global]#\n\t\n  retro_shift = maybe\r\n=\n# done"

theorem compile_of_relaid_of_adorned :
    Relaid (Text.splitAll '\n' bare.toList) (Text.splitAll '\n' adorned.toList) ∧
      Relaid (Text.splitAll '\n' bareFaulty.toList) (Text.splitAll '\n' adornedFaulty.toList) ∧
      (compile adorned).mapError (·.diagnostic.message) =
        .ok (({} : Config).set ⟨4, .switch Flag.dualRole true⟩) ∧
      (compile adornedFaulty).mapError (·.diagnostic.message) =
        .error "Invalid switch 'maybe'; use true or false" := by
  have hbare : Text.splitAll '\n' bare.toList =
      ["[global]".toList, "retro_shift = on".toList, []] := by decide +kernel
  have hadorned : Text.splitAll '\n' adorned.toList =
      [[] ++ '#' :: " mine\r".toList,
        (['\t'] ++ "[global]".toList ++ ['\u3000']) ++ '#' :: " all".toList ++ ['\r'],
        [' '], "retro_shift = on".toList ++ [' '] ++ '#' :: "= off".toList ++ ['\r'], []] := by
    decide +kernel
  have hfaulty : Text.splitAll '\n' bareFaulty.toList =
      ["[global]".toList, "retro_shift = maybe".toList, ['='], []] := by decide +kernel
  have hadornedFaulty : Text.splitAll '\n' adornedFaulty.toList =
      ["[global]".toList ++ '#' :: [], ['\t'],
        [' ', ' '] ++ "retro_shift = maybe".toList ++ ['\r'], ['='],
        [] ++ '#' :: " done".toList] := by
    decide +kernel
  have htab : ∀ c ∈ ['\t'], Text.isBlank c = true := List.forall_mem_singleton.mpr (by decide)
  have hspace : ∀ c ∈ [' '], Text.isBlank c = true := List.forall_mem_singleton.mpr (by decide)
  have hwide : ∀ c ∈ ['\u3000'], Text.isBlank c = true := List.forall_mem_singleton.mpr (by decide)
  have hspaces : ∀ c ∈ [' ', ' '], Text.isBlank c = true := List.all_eq_true.mp (by decide)
  have hrelaid : Relaid (Text.splitAll '\n' bare.toList) (Text.splitAll '\n' adorned.toList) := by
    rw [hbare, hadorned]
    refine .commentLine (by simp) _ (.line ?_ (.blankLine hspace (.line ?_ ?_)))
    · exact .carriageReturn (.comment (.blanksAfter (.blanksBefore (.same _) htab) hwide) _)
    · exact .carriageReturn (.comment (.blanksAfter (.same _) hspace) _)
    · exact .line (.same _) .nil
  have hrelaidFaulty : Relaid (Text.splitAll '\n' bareFaulty.toList)
      (Text.splitAll '\n' adornedFaulty.toList) := by
    rw [hfaulty, hadornedFaulty]
    refine .line (.comment (.same _) _) (.blankLine htab (.line ?_ (.line (.same _) ?_)))
    · exact .carriageReturn (.blanksBefore (.same _) hspaces)
    · exact .line (.comment (.same []) _) .nil
  refine ⟨hrelaid, hrelaidFaulty, ?_, ?_⟩
  · rw [compile_of_relaid hrelaid]
    decide +kernel
  · rw [compile_of_relaid hrelaidFaulty]
    decide +kernel

end Layout

end LongPress
