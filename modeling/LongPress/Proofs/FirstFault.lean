import Mathlib.Data.List.Induction
import LongPress.Proofs.Statements

/-!
# LongPress.Proofs.FirstFault

A fault is reported where it is.

The lines of a file are read one after the other, so a file is read just as far as each line may
stand after those before it (`AllProper`): to the end if they all may, and otherwise to the first
line that may not. What is reported is the flaw of that line. A `Mark` tells where in the line the
part at fault stands, in characters; the span tells the same in bytes of the file, and the position
in lines and columns.

* `compile_reports_first_fault` — the main statement.
-/

namespace LongPress

open Assignment (statementOf)

/-! ## Lines and columns -/

namespace Text

variable {before : List (List Char)} {front : List Char}

theorem not_mem_of_mem_splitAll {text line : List Char} (h : line ∈ splitAll '\n' text) :
    '\n' ∉ line := by
  obtain ⟨before, after, hsplit⟩ := List.append_of_mem h
  exact (exists_of_splitAll_eq hsplit).1

theorem lineNumber_withEnds_append (hbefore : ∀ line ∈ before, '\n' ∉ line)
    (hfront : '\n' ∉ front) : lineNumber (withEnds before ++ front) = before.length + 1 := by
  have hcount : (withEnds before).count '\n' = before.length := by
    induction before with
    | nil => rfl
    | cons line rest ih =>
      obtain ⟨hline, hrest⟩ := List.forall_mem_cons.mp hbefore
      simp [List.count_append, List.count_eq_zero.mpr hline, ih hrest]
  rw [lineNumber, List.count_append, hcount, List.count_eq_zero.mpr hfront]

theorem column_withEnds_append (before : List (List Char)) (hfront : '\n' ∉ front) :
    column (withEnds before ++ front) = front.length := by
  have hall : ∀ c ∈ front.reverse, decide (c ≠ '\n') = true :=
    decide_ne_of_not_mem (by simpa using hfront)
  have hend : (withEnds before).reverse.takeWhile (· ≠ '\n') = [] := by
    rcases List.eq_nil_or_concat before with rfl | ⟨lines, line, rfl⟩
    · rfl
    · simp [withEnds]
  rw [column, List.reverse_append, List.takeWhile_append_of_pos hall, hend, List.append_nil,
    List.length_reverse]

end Text

/-! ## Proper lines -/

namespace Line

variable {lines : List (List Char)} {line : List Char}

/-- There is a header among some lines. -/
def Headed (lines : List (List Char)) : Prop :=
  ∃ line ∈ lines, Statement.IsHeader (statementOf line)

/-- A line that may stand after the lines `before`. -/
def IsProper (before : List (List Char)) (line : List Char) : Prop :=
  Statement.IsProper (Headed before) (statementOf line)

/-- Each line may stand after those before it. -/
def AllProper (lines : List (List Char)) : Prop :=
  ∀ before line after, lines = before ++ line :: after → IsProper before line

theorem headed_concat :
    Headed (lines ++ [line]) ↔ Headed lines ∨ Statement.IsHeader (statementOf line) := by
  simp only [Headed, List.mem_append, List.mem_singleton, or_and_right, exists_or,
    exists_eq_left]

theorem allProper_concat : AllProper (lines ++ [line]) ↔ AllProper lines ∧ IsProper lines line := by
  constructor
  · intro h
    refine ⟨fun before earlier after he => h before earlier (after ++ [line]) ?_, h _ _ [] rfl⟩
    rw [he, List.append_assoc, List.cons_append]
  · rintro ⟨hlines, hline⟩ before earlier after he
    rcases List.eq_nil_or_concat after with rfl | ⟨rest, last, rfl⟩
    · obtain ⟨rfl, hlast⟩ := List.append_inj' he rfl
      rwa [← (List.cons.inj hlast).1]
    · rw [List.concat_eq_append, ← List.cons_append, ← List.append_assoc] at he
      exact hlines _ _ _ (List.append_inj' he rfl).1

/-- Where in a line a part of its statement stands. -/
structure Mark (line : List Char) where
  blanks : List Char
  lead : List Char
  marked : List Char
  rest : List Char
  tail : List Char
  line_eq : line = blanks ++ (lead ++ marked ++ rest) ++ tail
  statement_eq : statementOf line = lead ++ marked ++ rest
  blank : ∀ c ∈ blanks, Text.isBlank c = true

/-- What stands in front of it. -/
def Mark.front (m : Mark line) : List Char := m.blanks ++ m.lead

end Line

/-! ## Reading to the end or to a fault -/

namespace Reading

variable {r : Reading} {lines : List Fragment} {line : Fragment}

theorem readLines_append (r : Reading) (before after : List Fragment) :
    r.readLines (before ++ after) =
      match r.readLines before with
      | .ok next => next.readLines after
      | .error e => .error e := by
  induction before generalizing r with
  | nil => rfl
  | cons line rest ih =>
    rw [List.cons_append, readLines, readLines]
    cases r.readLine line with
    | ok next => exact ih next
    | error e => rfl

theorem readLines_singleton (r : Reading) (line : Fragment) :
    r.readLines [line] = r.readLine line := by
  rw [readLines]
  cases r.readLine line <;> rfl

/-- Lines that are read are proper, and a header among them is kept in mind. -/
theorem allProper_of_readLines (h : ({} : Reading).readLines lines = .ok r) :
    Line.AllProper (lines.map (·.text)) ∧
      (r.inSection = true ↔ Line.Headed (lines.map (·.text))) := by
  -- From the end, as what may stand in a line depends on all lines before it.
  induction lines using List.reverseRecOn generalizing r with
  | nil =>
    obtain rfl := Except.ok.inj h
    constructor
    · intro before line after he
      simp at he
    · simp [Line.Headed]
  | append_singleton lines line ih =>
    rw [readLines_append] at h
    split at h
    · next next hnext =>
      obtain ⟨hproper, hsection⟩ := ih hnext
      have hfits := fits_readLine next line
      rw [← readLines_singleton, h] at hfits
      obtain ⟨hline, hkept⟩ := hfits
      rw [Fragment.text_statement, hsection] at hline hkept
      rw [List.map_append, List.map_singleton, Line.allProper_concat, Line.headed_concat]
      exact ⟨⟨hproper, hline⟩, hkept⟩
    · cases h

/-- Proper lines are read to the end. -/
theorem readLines_of_allProper (h : Line.AllProper (lines.map (·.text))) :
    ∃ r, ({} : Reading).readLines lines = .ok r := by
  induction lines using List.reverseRecOn with
  | nil => exact ⟨{}, rfl⟩
  | append_singleton lines line ih =>
    rw [List.map_append, List.map_singleton, Line.allProper_concat] at h
    obtain ⟨hlines, hline⟩ := h
    obtain ⟨next, hnext⟩ := ih hlines
    obtain ⟨-, hsection⟩ := allProper_of_readLines hnext
    rw [readLines_append, hnext]
    dsimp only
    rw [readLines_singleton]
    apply readLine_of_isProper
    rw [Fragment.text_statement, hsection]
    exact hline

/-- A fault is the fault of a line, and all lines before it have been read. -/
theorem exists_of_readLines_error {e : SourceError} (h : r.readLines lines = .error e) :
    ∃ before line after next, lines = before ++ line :: after ∧
      r.readLines before = .ok next ∧ next.readLine line = .error e := by
  induction lines generalizing r with
  | nil => cases h
  | cons line rest ih =>
    rw [readLines] at h
    cases hline : r.readLine line with
    | error fault =>
      rw [hline] at h
      obtain rfl := Except.error.inj h
      exact ⟨[], line, rest, r, rfl, rfl, hline⟩
    | ok next =>
      rw [hline] at h
      obtain ⟨before, bad, after, last, rfl, hbefore, hbad⟩ := ih h
      refine ⟨line :: before, bad, after, last, rfl, ?_, hbad⟩
      rw [readLines, hline]
      exact hbefore

end Reading

/-! ## The place of a fault -/

/-- A fault of a line is a flaw of its statement, and the span marks the part at fault. -/
theorem Reading.exists_mark_of_readLine {r : Reading} {line : Fragment} {e : SourceError}
    (h : r.readLine line = .error e) :
    ∃ m : Line.Mark line.text,
      Statement.Flaw (r.inSection = true) m.lead m.marked m.rest e.fault ∧
        e.span = (Fragment.mk (line.start + Text.byteLength m.front) m.marked).span := by
  obtain ⟨blanks, tail, hblanks, htext, hstart⟩ := Fragment.exists_statement line
  have hfits := fits_readLine r line
  rw [h] at hfits
  obtain ⟨lead, marked, rest, hstatement, hflaw, hspan⟩ := hfits
  refine ⟨⟨blanks, lead, marked, rest, tail, ?_, ?_, hblanks⟩, hflaw, ?_⟩
  · rw [← hstatement, ← htext]
  · rw [← Fragment.text_statement, hstatement]
  · rw [hspan, hstart, Line.Mark.front, Text.byteLength_append, Nat.add_assoc]

/-- Where in a file an error is: at the marked part of the line that comes after `before`. -/
structure SourceError.LocatedAt (e : SourceError) (source : String) (before : List (List Char))
    {line : List Char} (m : Line.Mark line) : Prop where
  start_eq : e.span.start = Text.byteLength (Text.withEnds before ++ m.front)
  stop_eq : e.span.stop = Text.byteLength (Text.withEnds before ++ m.front ++ m.marked)
  start_le_stop : e.span.start ≤ e.span.stop
  stop_le_length : e.span.stop ≤ Text.byteLength source.toList
  text?_eq : e.span.text? source.toList = some m.marked
  position?_eq : e.diagnostic.position? source = some (before.length + 1, m.front.length)

theorem SourceError.locatedAt_of_span {e : SourceError} {source : String}
    {before after : List (List Char)} {line : List Char} {m : Line.Mark line}
    (hlines : Text.splitAll '\n' source.toList = before ++ line :: after)
    (hspan : e.span = (Fragment.mk
      (Text.byteLength (Text.withEnds before) + Text.byteLength m.front) m.marked).span) :
    e.LocatedAt source before m := by
  obtain ⟨hline, rest, hsource⟩ := Text.exists_of_splitAll_eq hlines
  have hparts : source.toList =
      Text.withEnds before ++ m.front ++ m.marked ++ (m.rest ++ m.tail ++ rest) := by
    rw [hsource]
    conv_lhs => rw [m.line_eq]
    simp [Line.Mark.front]
  have hstart : e.span.start = Text.byteLength (Text.withEnds before ++ m.front) := by
    rw [hspan, Text.byteLength_append]
    rfl
  have hstop : e.span.stop = Text.byteLength (Text.withEnds before ++ m.front ++ m.marked) := by
    rw [hspan, Text.byteLength_append, Text.byteLength_append]
    rfl
  have hbefore : ∀ earlier ∈ before, '\n' ∉ earlier := fun _ hmem =>
    Text.not_mem_of_mem_splitAll (hlines ▸ List.mem_append_left _ hmem)
  have hfront : '\n' ∉ m.front := by
    intro hmem
    apply hline
    rw [m.line_eq]
    simp only [Line.Mark.front, List.mem_append] at hmem ⊢
    tauto
  refine ⟨hstart, hstop, ?_, ?_, ?_, ?_⟩
  · rw [hstart, hstop, Text.byteLength_append _ m.marked]
    exact Nat.le_add_right _ _
  · rw [hstop, hparts, Text.byteLength_append _ (m.rest ++ _ ++ _)]
    exact Nat.le_add_right _ _
  · rw [Span.text?, hstart, hstop, hparts, Text.byteLength_append _ m.marked, Text.slice?_append]
  · have hposition : e.diagnostic.position? source =
        Text.position? e.span.start source.toList := rfl
    rw [hposition, hstart, hparts, List.append_assoc _ m.marked, Text.position?,
      Text.before?_append, Option.map_some, Text.lineNumber_withEnds_append hbefore hfront,
      Text.column_withEnds_append before hfront]

/-- A file is read to the end exactly if each line may stand after those before it. -/
theorem exists_compile_iff (source : String) :
    (∃ c, compile source = .ok c) ↔ Line.AllProper (Text.splitAll '\n' source.toList) := by
  have htexts : (Fragment.lines source.toList).map (·.text) = Text.splitAll '\n' source.toList :=
    Fragment.map_text_linesFrom 0 _
  rw [← htexts]
  constructor
  · rintro ⟨c, h⟩
    obtain ⟨r, hread, -⟩ := exists_readLines_of_compile h
    exact (Reading.allProper_of_readLines hread).1
  · intro h
    obtain ⟨r, hread⟩ := Reading.readLines_of_allProper h
    refine ⟨r.config, ?_⟩
    rw [compile, hread]
    rfl

/-- For every source, no cut fails, and it is read without a fault exactly if every line may stand
after those before it. Otherwise the flaw of the first line that may not is reported, at the part
that is at fault. -/
theorem compile_reports_first_fault (source : String) :
    let lines := Text.splitAll '\n' source.toList
    compileAt source = some (compile source) ∧
      ((∃ c, compile source = .ok c) ↔ Line.AllProper lines) ∧
      ∀ e, compile source = .error e →
        ∃ before line after, lines = before ++ line :: after ∧
          Line.AllProper before ∧ ¬ Line.IsProper before line ∧
          ∃ m : Line.Mark line,
            Statement.Flaw (Line.Headed before) m.lead m.marked m.rest e.fault ∧
            e.LocatedAt source before m := by
  refine ⟨compileAt_eq source, exists_compile_iff source, ?_⟩
  intro e h
  unfold compile at h
  cases hread : ({} : Reading).readLines (Fragment.lines source.toList) with
  | ok r =>
    rw [hread] at h
    cases h
  | error fault =>
    rw [hread] at h
    obtain rfl := Except.error.inj h
    obtain ⟨before, line, after, next, hsplit, hbefore, hline⟩ :=
      Reading.exists_of_readLines_error hread
    obtain ⟨hstart, hlines⟩ := Fragment.exists_of_lines_eq hsplit
    obtain ⟨hproper, hsection⟩ := Reading.allProper_of_readLines hbefore
    obtain ⟨m, hflaw, hspan⟩ := Reading.exists_mark_of_readLine hline
    rw [hsection] at hflaw
    rw [hstart] at hspan
    refine ⟨_, _, _, hlines, hproper, ?_, m, hflaw, SourceError.locatedAt_of_span hlines hspan⟩
    intro hgood
    rw [Line.IsProper, ← Fragment.text_statement, ← hsection] at hgood
    obtain ⟨r, hr⟩ := Reading.readLine_of_isProper hgood
    rw [hline] at hr
    cases hr

/-- Letters and blanks of several bytes, and a value too many in the fourth line. What is wrong with
the last line is not reported. -/
def twoValues : String :=
  "# Süß\n\u3000[global] # Maß\n tapping_term = 200 # ½ ß\n" ++
    "\u3000retro_shift =\u2003yes\u2003\u2003ß # no\n[other]\n"

theorem compile_reports_first_fault_of_twoValues :
    compile twoValues = .error ⟨.severalValues, 77, 85⟩ ∧
      ∃ before line after,
        Text.splitAll '\n' twoValues.toList = before ++ line :: after ∧
          Line.AllProper before ∧ ¬ Line.IsProper before line ∧
          ∃ m : Line.Mark line,
            Statement.Flaw (Line.Headed before) m.lead m.marked m.rest .severalValues ∧
            SourceError.LocatedAt ⟨.severalValues, 77, 85⟩ twoValues before m := by
  have hfault : compile twoValues = .error ⟨.severalValues, 77, 85⟩ := by decide +kernel
  obtain ⟨-, -, hreport⟩ := compile_reports_first_fault twoValues
  exact ⟨hfault, hreport _ hfault⟩

end LongPress
