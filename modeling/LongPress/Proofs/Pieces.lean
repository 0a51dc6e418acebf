import LongPress.Proofs.Assignments

/-!
# LongPress.Proofs.Pieces

The fragments of a settings file are pieces of it.

A fragment carries its text along with the offset at which it starts.  Whatever the reader cuts out
of a file is a piece of what it was cut out of, at that offset (`PieceOf`), and so of the whole
file.  An offset of a piece therefore never lies inside a character or beyond the file, and cutting
the file at the ends of the piece gives its text back (`text?_span_of_pieceOf`).

The second half of the module uses this for the reader itself.  `compileAt` reads a file with
nothing but offsets: wherever it looks at a part of the file, it cuts it out by the offsets of its
ends, and the whole reading fails if one of these cuts does.

* `compileAt_eq` — no cut ever fails, and both readers say the same.
-/

namespace LongPress

/-! ## Texts -/

namespace Text

theorem byteLength_eq_zero_iff {text : List Char} : byteLength text = 0 ↔ text = [] := by
  cases text with
  | nil => simp
  | cons c rest =>
    have hc := c.utf8Size_pos
    simp only [byteLength_cons, reduceCtorEq, iff_false]
    omega

/-- The part of a text between two offsets. There is none unless both are within the text and at
the boundary of a character, and the first is not behind the second. -/
def slice? (start stop : Nat) (text : List Char) : Option (List Char) :=
  (before? stop text).bind fun upTo => (before? start upTo).map fun front => upTo.drop front.length

theorem slice?_append (before part after : List Char) :
    slice? (byteLength before) (byteLength before + byteLength part) (before ++ part ++ after) =
      some part := by
  rw [slice?, ← byteLength_append, before?_append, Option.bind_some, before?_append,
    Option.map_some, List.drop_left]

theorem takeWhile_append_trimStart (text : List Char) :
    text.takeWhile isBlank ++ trimStart text = text := List.takeWhile_append_dropWhile

/-- Only blanks are taken off the end. -/
theorem exists_trimEnd_append (text : List Char) :
    ∃ blanks, (∀ c ∈ blanks, isBlank c = true) ∧ text = trimEnd text ++ blanks := by
  refine ⟨(text.reverse.takeWhile isBlank).reverse, ?_, ?_⟩
  · intro c hc
    exact List.mem_takeWhile_imp (List.mem_reverse.mp hc)
  · rw [trimEnd, ← List.reverse_append, List.takeWhile_append_dropWhile, List.reverse_reverse]

/-- Trimming takes off the blanks in front and some blanks at the end. -/
theorem exists_trim_append (text : List Char) :
    ∃ blanks, (∀ c ∈ blanks, isBlank c = true) ∧
      text = text.takeWhile isBlank ++ trim text ++ blanks := by
  obtain ⟨blanks, hblanks, h⟩ := exists_trimEnd_append (trimStart text)
  refine ⟨blanks, hblanks, ?_⟩
  rw [trim, List.append_assoc, ← h, takeWhile_append_trimStart]

/-- Whole lines, each with its end. -/
def withEnds (lines : List (List Char)) : List Char := lines.flatMap (· ++ ['\n'])

@[simp] theorem withEnds_cons (line : List Char) (rest : List (List Char)) :
    withEnds (line :: rest) = line ++ '\n' :: withEnds rest := by
  simp [withEnds]

/-- A line has no end in it, and the lines before it make up all that stands in front of it. -/
theorem exists_of_splitAll_eq {text line : List Char} {before after : List (List Char)}
    (h : splitAll '\n' text = before ++ line :: after) :
    '\n' ∉ line ∧ ∃ rest, text = withEnds before ++ line ++ rest := by
  induction before generalizing text with
  | nil =>
    by_cases hend : '\n' ∈ text
    · obtain ⟨first, rest, rfl, hfirst⟩ := List.eq_append_cons_of_mem hend
      rw [splitAll_append hfirst] at h
      obtain rfl := (List.cons.inj h).1
      exact ⟨hfirst, '\n' :: rest, rfl⟩
    · rw [splitAll_of_not_mem hend] at h
      obtain rfl := (List.cons.inj h).1
      exact ⟨hend, [], by simp [withEnds]⟩
  | cons front before ih =>
    by_cases hend : '\n' ∈ text
    · obtain ⟨first, rest, rfl, hfirst⟩ := List.eq_append_cons_of_mem hend
      rw [splitAll_append hfirst, List.cons_append] at h
      obtain ⟨rfl, htail⟩ := List.cons.inj h
      obtain ⟨hline, tail, rfl⟩ := ih htail
      exact ⟨hline, tail, by simp⟩
    · -- There is but one line.
      rw [splitAll_of_not_mem hend, List.cons_append] at h
      simp at h

/-- The offset of the first blank. -/
def firstBlank? (text : List Char) : Option Nat :=
  if text.any isBlank then some (byteLength (text.takeWhile (!isBlank ·))) else none

end Text

/-! ## Pieces -/

namespace Fragment

variable {f g h : Fragment}

/-- A fragment is a piece of another one, and starts where the piece starts. -/
def PieceOf (f g : Fragment) : Prop :=
  ∃ before after, g.text = before ++ f.text ++ after ∧ f.start = g.start + Text.byteLength before

theorem PieceOf.trans (hf : f.PieceOf g) (hg : g.PieceOf h) : f.PieceOf h := by
  obtain ⟨before, after, htext, hstart⟩ := hf
  obtain ⟨outerBefore, outerAfter, houterText, houterStart⟩ := hg
  refine ⟨outerBefore ++ before, after ++ outerAfter, ?_, ?_⟩
  · rw [houterText, htext]
    simp only [List.append_assoc]
  · rw [hstart, houterStart, Text.byteLength_append, Nat.add_assoc]

/-- The whole of a text. -/
def ofSource (source : List Char) : Fragment := ⟨0, source⟩

theorem pieceOf_trim (f : Fragment) : f.trim.PieceOf f := by
  obtain ⟨blanks, -, h⟩ := Text.exists_trim_append f.text
  exact ⟨_, blanks, h, rfl⟩

/-- What a fragment has before and after the first occurrence of a character. -/
structure Cut (c : Char) (f left right : Fragment) : Prop where
  text_eq : f.text = left.text ++ c :: right.text
  not_mem : c ∉ left.text
  left_start : left.start = f.start
  right_start : right.start = f.start + Text.byteLength left.text + c.utf8Size

section

variable {c : Char} {left right : Fragment}

theorem cut_of_splitFirst? (h : f.splitFirst? c = some (left, right)) : Cut c f left right := by
  obtain ⟨parts, hparts, he⟩ := Option.map_eq_some_iff.mp h
  obtain ⟨rfl, rfl⟩ := Prod.mk.inj he
  obtain ⟨htext, hleft⟩ := Text.eq_append_of_splitFirst? hparts
  exact ⟨htext, hleft, rfl, rfl⟩

theorem Cut.splitFirst?_text (h : Cut c f left right) :
    Text.splitFirst? c f.text = some (left.text, right.text) := by
  rw [h.text_eq]
  exact Text.splitFirst?_append h.not_mem _

theorem Cut.pieceOf_left (h : Cut c f left right) : left.PieceOf f :=
  ⟨[], c :: right.text, h.text_eq, h.left_start⟩

theorem Cut.pieceOf_right (h : Cut c f left right) : right.PieceOf f := by
  refine ⟨left.text ++ [c], [], ?_, ?_⟩
  · simp [h.text_eq]
  · simp [h.right_start, Nat.add_assoc]

end

theorem start_upTo (c : Char) (f : Fragment) : (f.upTo c).start = f.start := by
  unfold upTo splitFirst?
  cases Text.splitFirst? c f.text <;> rfl

/-- Only blanks stand in front of the statement of a line. -/
theorem exists_statement (line : Fragment) :
    ∃ blanks tail, (∀ c ∈ blanks, Text.isBlank c = true) ∧
      line.text = blanks ++ line.statement.text ++ tail ∧
      line.statement.start = line.start + Text.byteLength blanks := by
  obtain ⟨trailing, -, htrim⟩ := Text.exists_trim_append (line.upTo '#').text
  refine ⟨(line.upTo '#').text.takeWhile Text.isBlank,
    trailing ++ line.text.dropWhile (· ≠ '#'), fun _ => List.mem_takeWhile_imp, ?_, ?_⟩
  · calc line.text
        = line.text.takeWhile (· ≠ '#') ++ line.text.dropWhile (· ≠ '#') :=
          List.takeWhile_append_dropWhile.symm
      _ = (line.upTo '#').text ++ line.text.dropWhile (· ≠ '#') := by rw [text_upTo]
      _ = (line.upTo '#').text.takeWhile Text.isBlank ++ line.statement.text ++ trailing ++
            line.text.dropWhile (· ≠ '#') := by rw [statement, trim, ← htrim]
      _ = _ := List.append_assoc _ _ _
  · rw [statement, trim, start_upTo]

theorem pieceOf_statement (line : Fragment) : line.statement.PieceOf line := by
  obtain ⟨blanks, tail, -, htext, hstart⟩ := exists_statement line
  exact ⟨blanks, tail, htext, hstart⟩

/-- What follows the first blank ends where the fragment ends. -/
theorem span_fromBlank? (f : Fragment) :
    f.fromBlank?.map span =
      (Text.firstBlank? f.text).map fun offset => ⟨f.start + offset, f.stop⟩ := by
  have hparts : f.text.takeWhile (!Text.isBlank ·) ++ f.text.dropWhile (!Text.isBlank ·) = f.text :=
    List.takeWhile_append_dropWhile
  unfold fromBlank? Text.firstBlank?
  split
  · next hnil =>
    have hnone : f.text.any Text.isBlank = false := by simpa using hnil
    simp [hnone]
  · next hne =>
    have hany : f.text.any Text.isBlank = true := by simpa using hne
    have hlength := congrArg Text.byteLength hparts
    rw [Text.byteLength_append] at hlength
    simp only [hany, if_true, Option.map_some, span, stop, ← hlength, Nat.add_assoc]

theorem start_of_linesFrom_eq {start : Nat} {texts : List (List Char)}
    {before after : List Fragment} {line : Fragment}
    (h : linesFrom start texts = before ++ line :: after) :
    line.start = start + Text.byteLength (Text.withEnds (before.map (·.text))) := by
  induction before generalizing start texts with
  | nil =>
    cases texts with
    | nil => simp [linesFrom] at h
    | cons text rest =>
      obtain ⟨rfl, -⟩ := List.cons.inj h
      rfl
  | cons front before ih =>
    cases texts with
    | nil => simp [linesFrom] at h
    | cons text rest =>
      obtain ⟨rfl, htail⟩ := List.cons.inj h
      have hend : '\n'.utf8Size = 1 := rfl
      simp [ih htail, hend, Nat.add_assoc]

/-- Where the lines of a file are cut, the file is cut there as well. -/
theorem exists_of_lines_eq {source : List Char} {before after : List Fragment} {line : Fragment}
    (h : lines source = before ++ line :: after) :
    line.start = Text.byteLength (Text.withEnds (before.map (·.text))) ∧
      Text.splitAll '\n' source =
        before.map (·.text) ++ line.text :: after.map (·.text) := by
  constructor
  · simpa using start_of_linesFrom_eq h
  · have htexts := congrArg (List.map (·.text)) h
    rwa [lines, map_text_linesFrom, List.map_append, List.map_cons] at htexts

theorem pieceOf_of_mem_lines {source : List Char} {line : Fragment} (h : line ∈ lines source) :
    line.PieceOf (.ofSource source) := by
  obtain ⟨before, after, hsplit⟩ := List.append_of_mem h
  obtain ⟨hstart, htexts⟩ := exists_of_lines_eq hsplit
  obtain ⟨-, rest, hsource⟩ := Text.exists_of_splitAll_eq htexts
  exact ⟨_, rest, hsource, hstart.trans (Nat.zero_add _).symm⟩

end Fragment

/-! ## Spans -/

namespace Span

/-- The part of a text that a span marks. -/
def text? (source : List Char) (span : Span) : Option (List Char) :=
  Text.slice? span.start span.stop source

/-- The span of what is left between two offsets of a text without the blanks around it. The text
itself starts at the offset `base`. -/
def trimmed? (text : List Char) (start stop base : Nat) : Option Span :=
  (Text.slice? start stop text).map fun part =>
    let lead := Text.byteLength part - Text.byteLength (Text.trimStart part)
    ⟨base + start + lead, base + start + lead + Text.byteLength (Text.trim part)⟩

theorem trimmed?_append (before part after : List Char) (base : Nat) :
    trimmed? (before ++ part ++ after) (Text.byteLength before)
        (Text.byteLength before + Text.byteLength part) base =
      some (Fragment.mk (base + Text.byteLength before) part).trim.span := by
  have hlead : Text.byteLength part - Text.byteLength (Text.trimStart part) =
      Text.byteLength (part.takeWhile Text.isBlank) := by
    have hlength := congrArg Text.byteLength (Text.takeWhile_append_trimStart part)
    rw [Text.byteLength_append] at hlength
    omega
  rw [trimmed?, Text.slice?_append, Option.map_some, hlead]
  rfl

/-- Cutting a source at the ends of one of its pieces gives the text of the piece. -/
theorem text?_span_of_pieceOf {f : Fragment} {source : List Char}
    (h : f.PieceOf (.ofSource source)) : f.span.text? source = some f.text := by
  obtain ⟨before, after, htext, hstart⟩ := h
  have hstart' : f.start = Text.byteLength before := hstart.trans (Nat.zero_add _)
  have htext' : source = before ++ f.text ++ after := htext
  rw [text?, Fragment.span, Fragment.stop, hstart', htext', Text.slice?_append]

end Span

/-! ## Reading by offsets -/

namespace Reading

variable {source : List Char} {r : Reading} {f line : Fragment}

/-- Reads the header that a span marks. -/
def readHeaderAt (source : List Char) (r : Reading) (span : Span) :
    Option (Except SourceError Reading) :=
  (span.text? source).map fun text =>
    match headerName? text with
    | none => .error ⟨.unclosedHeader, span.start, span.start + 1⟩
    | some name =>
      let name := String.ofList (Text.trim name)
      if name = "global" then .ok { r with inSection := true }
      else .error ⟨.unknownSection name, span.start + 1, span.stop - 1⟩

/-- Assigns the value that one span marks to the setting whose name the other one marks. -/
def assignAt (source : List Char) (r : Reading) (name value : Span) :
    Option (Except SourceError Reading) :=
  (name.text? source).bind fun nameText =>
    match Property.named (String.ofList nameText) with
    | .error e => some (.error ⟨.badSetting e, name⟩)
    | .ok p =>
      (value.text? source).map fun valueText =>
        match p.assign (String.ofList valueText) with
        | .error e => .error ⟨.badSetting e, value⟩
        | .ok p => .ok { r with config := r.config.set p }

/-- Reads the assignment that a span marks. -/
def readAssignmentAt (source : List Char) (r : Reading) (span : Span) :
    Option (Except SourceError Reading) :=
  if r.inSection then
    (span.text? source).bind fun text =>
      match Text.splitFirst? '=' text with
      | none => some (.error ⟨.missingEquals, span⟩)
      | some (front, _) =>
        let equals := Text.byteLength front
        (Span.trimmed? text 0 equals span.start).bind fun name =>
          (Span.trimmed? text (equals + 1) (Text.byteLength text) span.start).bind fun value =>
            if name.stop ≤ name.start then
              some (.error ⟨.missingName, span.start, span.start + equals + 1⟩)
            else if value.stop ≤ value.start then some (.error ⟨.missingValue, span⟩)
            else
              (value.text? source).bind fun valueText =>
                match Text.firstBlank? valueText with
                | some offset => some (.error ⟨.severalValues, value.start + offset, value.stop⟩)
                | none => r.assignAt source name value
  else some (.error ⟨.noSection, span⟩)

/-- Reads one line. -/
def readLineAt (source : List Char) (r : Reading) (line : Fragment) :
    Option (Except SourceError Reading) :=
  let f := line.statement
  if f.text = [] then some (.ok r)
  else if f.text.head? = some '[' then r.readHeaderAt source f.span
  else r.readAssignmentAt source f.span

/-- Reads lines up to the first fault. -/
def readLinesAt (source : List Char) (r : Reading) :
    List Fragment → Option (Except SourceError Reading)
  | [] => some (.ok r)
  | line :: rest =>
    (r.readLineAt source line).bind fun
      | .ok next => next.readLinesAt source rest
      | .error e => some (.error e)

theorem readHeaderAt_eq (h : f.PieceOf (.ofSource source)) :
    r.readHeaderAt source f.span = some (r.readHeader f) := by
  rw [readHeaderAt, Span.text?_span_of_pieceOf h]
  rfl

theorem assignAt_eq {name value : Fragment} (hname : name.PieceOf (.ofSource source))
    (hvalue : value.PieceOf (.ofSource source)) :
    r.assignAt source name.span value.span = some (r.assign name value) := by
  rw [assignAt, assign, Span.text?_span_of_pieceOf hname, Span.text?_span_of_pieceOf hvalue,
    Option.bind_some]
  cases Property.named (String.ofList name.text) with
  | error e => rfl
  | ok p => rfl

theorem stop_le_start_iff (f : Fragment) : f.span.stop ≤ f.span.start ↔ f.text = [] := by
  rw [← Text.byteLength_eq_zero_iff]
  simp only [Fragment.span, Fragment.stop]
  omega

section

variable {left right : Fragment}

/-- The two sides of an equals sign are found at their offsets. -/
theorem trimmed?_left (h : f.Cut '=' left right) :
    Span.trimmed? f.text 0 (Text.byteLength left.text) f.start = some left.trim.span := by
  have hname := Span.trimmed?_append [] left.text ('=' :: right.text) f.start
  rw [List.nil_append, ← h.text_eq, Text.byteLength_nil, Nat.zero_add, Nat.add_zero] at hname
  rw [hname, ← h.left_start]

theorem trimmed?_right (h : f.Cut '=' left right) :
    Span.trimmed? f.text (Text.byteLength left.text + 1) (Text.byteLength f.text) f.start =
      some right.trim.span := by
  have hequals : '='.utf8Size = 1 := rfl
  have hlead : Text.byteLength (left.text ++ ['=']) = Text.byteLength left.text + 1 := by
    simp [hequals]
  have hvalue := Span.trimmed?_append (left.text ++ ['=']) right.text [] f.start
  have htext : left.text ++ ['='] ++ right.text = f.text := by simp [h.text_eq]
  rw [List.append_nil, ← Text.byteLength_append, htext, hlead, ← Nat.add_assoc] at hvalue
  rw [hvalue, ← hequals, ← h.right_start]

end

theorem readAssignmentAt_eq (h : f.PieceOf (.ofSource source)) :
    r.readAssignmentAt source f.span = some (r.readAssignment f) := by
  unfold readAssignmentAt readAssignment
  split
  · rw [Span.text?_span_of_pieceOf h, Option.bind_some]
    cases hparts : f.splitFirst? '=' with
    | none =>
      have hnone : Text.splitFirst? '=' f.text = none := Option.map_eq_none_iff.mp hparts
      rw [hnone]
    | some sides =>
      obtain ⟨left, right⟩ := sides
      have hcut := Fragment.cut_of_splitFirst? hparts
      have hname := ((Fragment.pieceOf_trim left).trans hcut.pieceOf_left).trans h
      have hvalue := ((Fragment.pieceOf_trim right).trans hcut.pieceOf_right).trans h
      have hfirst : f.span.start = f.start := rfl
      have hequals : '='.utf8Size = 1 := rfl
      simp only [hcut.splitFirst?_text, hfirst, trimmed?_left hcut, trimmed?_right hcut,
        hcut.right_start, hequals, Option.bind_some, stop_le_start_iff,
        Span.text?_span_of_pieceOf hvalue, assignAt_eq hname hvalue]
      split
      · rfl
      · split
        · rfl
        · have hblank := right.trim.span_fromBlank?
          cases hrest : right.trim.fromBlank? with
          | none =>
            rw [hrest, Option.map_none, eq_comm, Option.map_eq_none_iff] at hblank
            rw [hblank]
          | some blankOn =>
            rw [hrest, Option.map_some, eq_comm, Option.map_eq_some_iff] at hblank
            obtain ⟨offset, hoffset, hspan⟩ := hblank
            rw [hoffset]
            dsimp only
            rw [← hspan]
            rfl
  · rfl

theorem readLine_of_nil (h : line.statement.text = []) : r.readLine line = .ok r := by
  unfold readLine
  simp only [h]

theorem readLine_of_header {tail : List Char} (h : line.statement.text = '[' :: tail) :
    r.readLine line = r.readHeader line.statement := by
  unfold readLine
  simp only [h]

theorem readLine_of_other (hnil : line.statement.text ≠ [])
    (hother : line.statement.text.head? ≠ some '[') :
    r.readLine line = r.readAssignment line.statement := by
  unfold readLine
  dsimp only
  split
  · next h => exact absurd h hnil
  · next h => exact absurd (by rw [h]; rfl) hother
  · rfl

theorem readLineAt_eq (h : line.PieceOf (.ofSource source)) :
    r.readLineAt source line = some (r.readLine line) := by
  have hstatement := (Fragment.pieceOf_statement line).trans h
  unfold readLineAt
  dsimp only
  split
  · next hnil => rw [readLine_of_nil hnil]
  · next hnil =>
    split
    · next hheader =>
      obtain ⟨tail, htail⟩ := List.head?_eq_some_iff.mp hheader
      rw [readLine_of_header htail, readHeaderAt_eq hstatement]
    · next hother => rw [readLine_of_other hnil hother, readAssignmentAt_eq hstatement]

theorem readLinesAt_eq {lines : List Fragment}
    (h : ∀ line ∈ lines, line.PieceOf (.ofSource source)) :
    r.readLinesAt source lines = some (r.readLines lines) := by
  induction lines generalizing r with
  | nil => rfl
  | cons line rest ih =>
    obtain ⟨hline, hrest⟩ := List.forall_mem_cons.mp h
    rw [readLinesAt, readLineAt_eq hline, Option.bind_some, readLines]
    cases r.readLine line with
    | error e => rfl
    | ok next => exact ih hrest

end Reading

/-- The configuration that a settings file describes, read by offsets. -/
def compileAt (source : String) : Option (Except SourceError Config) :=
  (Reading.readLinesAt source.toList {} (Fragment.lines source.toList)).map (·.map (·.config))

theorem compileAt_eq (source : String) : compileAt source = some (compile source) := by
  have hlines : ∀ line ∈ Fragment.lines source.toList, line.PieceOf (.ofSource source.toList) :=
    fun _ => Fragment.pieceOf_of_mem_lines
  rw [compileAt, Reading.readLinesAt_eq hlines]
  rfl

end LongPress
