import LongPress.Proofs.Pieces

/-!
# LongPress.Proofs.Statements

What a line of a settings file may say, and what is wrong with it otherwise.

A statement is a header or an assignment (`IsHeader`, `IsAssignment`), and an assignment has to come
after a header (`IsProper`). Of all other statements `Flaw` tells the fault and the part that is at
fault. None of these says anything about offsets.

The reader of a line keeps to them both ways: whatever may stand in a line is read
(`readLine_of_isProper`), and whatever is not read has a flaw, of which the span marks just the part
at fault (`fits_readLine`).
-/

namespace LongPress

/-! ## Words -/

namespace Text

/-- One word: not nothing, and no blank in it. -/
def IsWord (text : List Char) : Prop := text ≠ [] ∧ ∀ c ∈ text, isBlank c = false

theorem head?_trim_of_not_isBlank {c : Char} (hc : isBlank c = false) (rest : List Char) :
    (trim (c :: rest)).head? = some c := by
  obtain ⟨blanks, hblanks, h⟩ := exists_trimEnd_append (c :: rest)
  have htrim : trim (c :: rest) = trimEnd (c :: rest) := by
    rw [trim, trimStart, List.dropWhile_cons_of_neg (by simp [hc])]
  rw [htrim]
  cases hend : trimEnd (c :: rest) with
  | nil =>
    rw [hend, List.nil_append] at h
    have hblank := hblanks c (h ▸ List.mem_cons_self)
    rw [hc] at hblank
    cases hblank
  | cons d tail =>
    rw [hend, List.cons_append] at h
    rw [(List.cons.inj h).1]
    rfl

/-- A trimmed text does not start with a blank. -/
theorem not_isBlank_of_head?_trim {text : List Char} {c : Char}
    (h : (trim text).head? = some c) : isBlank c = false := by
  obtain ⟨blanks, -, hend⟩ := exists_trimEnd_append (trimStart text)
  have hstart : (trimStart text).head? = some c := by
    rw [hend, List.head?_append]
    rw [trim] at h
    simp [h]
  have hnot := List.head?_dropWhile_not isBlank text
  rw [trimStart] at hstart
  rw [hstart] at hnot
  simpa using hnot

end Text

namespace Fragment

variable {f others : Fragment}

theorem not_isBlank_of_fromBlank? (h : f.fromBlank? = none) :
    ∀ c ∈ f.text, Text.isBlank c = false := by
  unfold fromBlank? at h
  split at h
  · next hnil => simpa using List.dropWhile_eq_nil_iff.mp hnil
  · cases h

/-- What starts at the first blank follows a word. -/
theorem exists_of_fromBlank? (h : f.fromBlank? = some others) :
    ∃ word, f.text = word ++ others.text ∧ (∀ c ∈ word, Text.isBlank c = false) ∧
      others.text.head?.any Text.isBlank = true ∧
      others.start = f.start + Text.byteLength word := by
  unfold fromBlank? at h
  split at h
  · cases h
  · next hne =>
    obtain rfl := Option.some.inj h
    refine ⟨f.text.takeWhile (!Text.isBlank ·), ?_, ?_, ?_, rfl⟩
    · exact List.takeWhile_append_dropWhile.symm
    · intro c hc
      simpa using List.mem_takeWhile_imp hc
    · have hhead := List.head?_dropWhile_not (!Text.isBlank ·) f.text
      cases hrest : f.text.dropWhile (!Text.isBlank ·) with
      | nil => exact absurd hrest hne
      | cons c rest => simpa [hrest] using hhead

end Fragment

/-! ## What a line may say -/

namespace Statement

/-- The header of the one section that there is. -/
def IsHeader (text : List Char) : Prop :=
  ∃ name, text = '[' :: name ++ [']'] ∧ Text.trim name = "global".toList

/-- A name that is known and, after the first equals sign, one word that the setting takes. -/
def IsAssignment (text : List Char) : Prop :=
  ∃ left right p q, text = left ++ '=' :: right ∧ '=' ∉ left ∧ Text.trim left ≠ [] ∧
    Property.named? (String.ofList (Text.trim left)) = some p ∧
    Text.IsWord (Text.trim right) ∧ p.assign (String.ofList (Text.trim right)) = .ok q

/-- A statement that may stand in a line, whether there is a header before it or not. -/
def IsProper (headed : Prop) (text : List Char) : Prop :=
  text = [] ∨ IsHeader text ∨ headed ∧ IsAssignment text

/-- A statement that is meant as an assignment: it says something, and does not start like a
header. -/
def IsPlain (text : List Char) : Prop := text ≠ [] ∧ text.head? ≠ some '['

/-! ## What is wrong with it otherwise -/

/-- What is wrong with the header `lead ++ marked ++ rest`, where `marked` is at fault. -/
inductive HeaderFlaw : List Char → List Char → List Char → Fault → Prop where
  | unclosed {rest : List Char} (hclosed : rest.getLast? ≠ some ']') :
    HeaderFlaw [] ['['] rest .unclosedHeader
  | unknownSection {name : List Char} (hname : Text.trim name ≠ "global".toList) :
    HeaderFlaw ['['] name [']'] (.unknownSection (String.ofList (Text.trim name)))

/-- What is wrong with the assignment `lead ++ marked ++ rest`, where `marked` is at fault. -/
inductive AssignmentFlaw : List Char → List Char → List Char → Fault → Prop where
  | missingEquals {text : List Char} (hequals : '=' ∉ text) :
    AssignmentFlaw [] text [] .missingEquals
  | missingName {left right : List Char} (hleft : '=' ∉ left) (hname : Text.trim left = []) :
    AssignmentFlaw [] (left ++ ['=']) right .missingName
  | missingValue {left right : List Char} (hleft : '=' ∉ left) (hname : Text.trim left ≠ [])
    (hvalue : Text.trim right = []) :
    AssignmentFlaw [] (left ++ '=' :: right) [] .missingValue
  | severalValues {left front word others back : List Char} (hleft : '=' ∉ left)
    (hname : Text.trim left ≠ [])
    (hvalue : Text.trim (front ++ word ++ others ++ back) = word ++ others)
    (hword : Text.IsWord word) (hothers : others.head?.any Text.isBlank = true) :
    AssignmentFlaw (left ++ '=' :: front ++ word) others back .severalValues
  | unknownName {front name back right : List Char} (hleft : '=' ∉ front ++ name ++ back)
    (hname : Text.trim (front ++ name ++ back) = name) (hne : name ≠ [])
    (hword : Text.IsWord (Text.trim right))
    (hunknown : Property.named? (String.ofList name) = none) :
    AssignmentFlaw front name (back ++ '=' :: right)
      (.badSetting (.unknownName (String.ofList name)))
  | badValue {left front value back : List Char} {p : Property} {e : PropertyError}
    (hleft : '=' ∉ left) (hname : Text.trim left ≠ [])
    (hknown : Property.named? (String.ofList (Text.trim left)) = some p)
    (hvalue : Text.trim (front ++ value ++ back) = value) (hword : Text.IsWord value)
    (hbad : p.assign (String.ofList value) = .error e) :
    AssignmentFlaw (left ++ '=' :: front) value back (.badSetting e)

/-- What is wrong with the statement `lead ++ marked ++ rest`, where `marked` is at fault. -/
inductive Flaw (headed : Prop) : List Char → List Char → List Char → Fault → Prop where
  | ofHeader {lead marked rest : List Char} {fault : Fault}
    (hflaw : HeaderFlaw lead marked rest fault) : Flaw headed lead marked rest fault
  | noSection {text : List Char} (hheaded : ¬ headed) (hplain : IsPlain text) :
    Flaw headed [] text [] .noSection
  | ofAssignment {lead marked rest : List Char} {fault : Fault} (hheaded : headed)
    (hplain : IsPlain (lead ++ marked ++ rest))
    (hflaw : AssignmentFlaw lead marked rest fault) : Flaw headed lead marked rest fault

theorem not_isHeader_nil : ¬ IsHeader [] := by
  rintro ⟨name, h, -⟩
  cases h

/-- No name starts like a header. -/
theorem IsAssignment.isPlain {text : List Char} (h : IsAssignment text) : IsPlain text := by
  obtain ⟨left, right, p, q, rfl, -, hname, hknown, -⟩ := h
  have hnames : ∀ entry ∈ Property.all ++ Property.aliases,
      entry.1.toList.head? ≠ some '[' := by decide
  refine ⟨by simp, ?_⟩
  intro hhead
  cases left with
  | nil => cases hhead
  | cons c left =>
    obtain rfl : c = '[' := Option.some.inj hhead
    obtain ⟨before, after, he, -⟩ := List.lookup_eq_some_iff.mp hknown
    have hmem : (String.ofList (Text.trim ('[' :: left)), p) ∈
        Property.all ++ Property.aliases := by
      rw [he]
      simp
    apply hnames _ hmem
    rw [String.toList_ofList]
    exact Text.head?_trim_of_not_isBlank (by decide) left

end Statement

namespace Reading

variable {r r' : Reading} {f line : Fragment}

/-! ## Proper lines are read -/

theorem readHeader_of_isHeader (h : Statement.IsHeader f.text) :
    r.readHeader f = .ok { r with inSection := true } := by
  obtain ⟨name, htext, hname⟩ := h
  have hheader : headerName? f.text = some name := by simp [htext, headerName?]
  simp only [readHeader, hheader, hname]
  rfl

theorem readAssignment_of_isAssignment (hsection : r.inSection = true)
    (h : Statement.IsAssignment f.text) : ∃ r', r.readAssignment f = .ok r' := by
  obtain ⟨left, right, p, q, htext, hleft, hname, hknown, ⟨hvalue, hword⟩, hassign⟩ := h
  have hcut : f.splitFirst? '=' =
      some (⟨f.start, left⟩, ⟨f.start + Text.byteLength left + 1, right⟩) := by
    rw [Fragment.splitFirst?, htext, Text.splitFirst?_append hleft]
    rfl
  have hblank : (Text.trim right).dropWhile (!Text.isBlank ·) = [] := by
    rw [List.dropWhile_eq_nil_iff]
    intro c hc
    simp [hword c hc]
  refine ⟨{ r with config := r.config.set q }, ?_⟩
  simp only [readAssignment, hsection, if_true, hcut, Fragment.trim, hname, hvalue, if_false,
    Fragment.fromBlank?, hblank, assign, Property.named, hknown, hassign]

/-- Whatever may stand in a line is read. -/
theorem readLine_of_isProper
    (h : Statement.IsProper (r.inSection = true) line.statement.text) :
    ∃ r', r.readLine line = .ok r' := by
  rcases h with hnil | hheader | ⟨hsection, hassignment⟩
  · exact ⟨r, readLine_of_nil hnil⟩
  · obtain ⟨name, htext, -⟩ := id hheader
    exact ⟨_, (readLine_of_header htext).trans (readHeader_of_isHeader hheader)⟩
  · obtain ⟨hnil, hother⟩ := hassignment.isPlain
    rw [readLine_of_other hnil hother]
    exact readAssignment_of_isAssignment hsection hassignment

/-! ## Whatever is not read has a flaw -/

/-- What a statement leads to fits it: either the statement is proper, and a header is kept in mind,
or it has the flaw that is reported, and the span marks the part at fault. -/
def Fits (r : Reading) (f : Fragment) : Except SourceError Reading → Prop
  | .ok r' =>
    Statement.IsProper (r.inSection = true) f.text ∧
      (r'.inSection = true ↔ r.inSection = true ∨ Statement.IsHeader f.text)
  | .error e =>
    ∃ lead marked rest, f.text = lead ++ marked ++ rest ∧
      Statement.Flaw (r.inSection = true) lead marked rest e.fault ∧
      e.span = (Fragment.mk (f.start + Text.byteLength lead) marked).span

theorem fits_readHeader {tail : List Char} (h : f.text = '[' :: tail) :
    Fits r f (r.readHeader f) := by
  unfold readHeader
  split
  · next hname =>
    have hclosed : tail.getLast? ≠ some ']' := by
      intro hlast
      rw [h, headerName?, if_pos hlast] at hname
      cases hname
    exact ⟨[], ['['], tail, h, .ofHeader (.unclosed hclosed), rfl⟩
  · next name hname =>
    have htext : f.text = ['['] ++ name ++ [']'] := by
      rw [h, headerName?] at hname
      split at hname
      · next hlast =>
        obtain ⟨inner, rfl⟩ := List.getLast?_eq_some_iff.mp hlast
        rw [List.dropLast_concat] at hname
        rw [h, Option.some.inj hname]
        simp
      · cases hname
    dsimp only
    split
    · next hglobal =>
      have hheader : Statement.IsHeader f.text :=
        ⟨name, htext, by rw [← hglobal, String.toList_ofList]⟩
      exact ⟨.inr (.inl hheader), by simp [hheader]⟩
    · next hother =>
      refine ⟨['['], name, [']'], htext, .ofHeader (.unknownSection ?_), ?_⟩
      · intro hglobal
        exact hother (by rw [hglobal]; rfl)
      · have hopen : '['.utf8Size = 1 := rfl
        have hclose : ']'.utf8Size = 1 := rfl
        simp [Fragment.span, Fragment.stop, htext, hopen, hclose]
        omega

section

variable {left right : Fragment}

theorem fits_of_flaw {lead marked rest : List Char} {e : SourceError}
    (hsection : r.inSection = true) (hplain : Statement.IsPlain f.text)
    (htext : f.text = lead ++ marked ++ rest)
    (hflaw : Statement.AssignmentFlaw lead marked rest e.fault)
    (hspan : e.span = (Fragment.mk (f.start + Text.byteLength lead) marked).span) :
    Fits r f (.error e) :=
  ⟨lead, marked, rest, htext, .ofAssignment hsection (htext ▸ hplain) hflaw, hspan⟩

theorem fits_ok_of_isAssignment (hsection : r.inSection = true)
    (hassignment : Statement.IsAssignment f.text) (hkept : r'.inSection = true) :
    Fits r f (.ok r') :=
  ⟨.inr (.inr ⟨hsection, hassignment⟩), by simp [hsection, hkept]⟩

theorem fits_assign (hsection : r.inSection = true) (hplain : Statement.IsPlain f.text)
    (hcut : f.Cut '=' left right) (hname : left.trim.text ≠ [])
    (hword : Text.IsWord right.trim.text) : Fits r f (r.assign left.trim right.trim) := by
  unfold assign Property.named
  cases hknown : Property.named? (String.ofList left.trim.text) with
  | none =>
    obtain ⟨front, back, hleft, hstart⟩ := Fragment.pieceOf_trim left
    have htext : f.text = front ++ left.trim.text ++ (back ++ '=' :: right.text) := by
      rw [hcut.text_eq, hleft]
      simp
    have htrim : Text.trim (front ++ left.trim.text ++ back) = left.trim.text := by
      rw [← hleft]
      rfl
    refine fits_of_flaw hsection hplain htext
      (.unknownName (hleft ▸ hcut.not_mem) htrim hname hword hknown) ?_
    simp only [Fragment.span, Fragment.stop, hstart, hcut.left_start]
  | some p =>
    dsimp only
    cases hassign : p.assign (String.ofList right.trim.text) with
    | error e =>
      obtain ⟨front, back, hright, hstart⟩ := Fragment.pieceOf_trim right
      have htext : f.text = left.text ++ '=' :: front ++ right.trim.text ++ back := by
        rw [hcut.text_eq, hright]
        simp
      have htrim : Text.trim (front ++ right.trim.text ++ back) = right.trim.text := by
        rw [← hright]
        rfl
      refine fits_of_flaw hsection hplain htext
        (.badValue hcut.not_mem hname hknown htrim hword hassign) ?_
      have hequals : '='.utf8Size = 1 := rfl
      simp [Fragment.span, Fragment.stop, hstart, hcut.right_start, hequals, Nat.add_assoc]
    | ok q =>
      have hassignment : Statement.IsAssignment f.text :=
        ⟨left.text, right.text, p, q, hcut.text_eq, hcut.not_mem, hname, hknown, hword, hassign⟩
      exact fits_ok_of_isAssignment hsection hassignment hsection

/-- What follows the first blank of a value is at fault. -/
theorem fits_severalValues {others : Fragment} (hsection : r.inSection = true)
    (hplain : Statement.IsPlain f.text) (hcut : f.Cut '=' left right) (hname : left.trim.text ≠ [])
    (hothers : right.trim.fromBlank? = some others) :
    Fits r f (.error ⟨.severalValues, others.span⟩) := by
  obtain ⟨front, back, hright, hstart⟩ := Fragment.pieceOf_trim right
  obtain ⟨word, hvalue, hword, hblank, hothersStart⟩ := Fragment.exists_of_fromBlank? hothers
  rw [hvalue] at hright
  have htext : f.text = left.text ++ '=' :: front ++ word ++ others.text ++ back := by
    rw [hcut.text_eq, hright]
    simp
  have htrim : Text.trim (front ++ word ++ others.text ++ back) = word ++ others.text := by
    rw [← hvalue, List.append_assoc front, ← hright]
    rfl
  have hne : word ≠ [] := by
    -- A value does not start with a blank.
    rintro rfl
    obtain ⟨c, hhead, hc⟩ := (Option.any_eq_true _ _).mp hblank
    rw [← List.nil_append others.text, ← hvalue] at hhead
    rw [Text.not_isBlank_of_head?_trim hhead] at hc
    cases hc
  refine fits_of_flaw hsection hplain htext
    (.severalValues hcut.not_mem hname htrim ⟨hne, hword⟩ hblank) ?_
  have hequals : '='.utf8Size = 1 := rfl
  simp [Fragment.span, Fragment.stop, hothersStart, hstart, hcut.right_start, hequals,
    Nat.add_assoc]

theorem fits_readAssignment (hplain : Statement.IsPlain f.text) :
    Fits r f (r.readAssignment f) := by
  unfold readAssignment
  split
  · next hsection =>
    split
    · next hparts =>
      have hequals : '=' ∉ f.text :=
        Text.splitFirst?_eq_none_iff.mp (Option.map_eq_none_iff.mp hparts)
      exact fits_of_flaw hsection hplain (by simp) (.missingEquals hequals) rfl
    · next left right hparts =>
      have hcut := Fragment.cut_of_splitFirst? hparts
      dsimp only
      split
      · next hname =>
        have htext : f.text = [] ++ (left.text ++ ['=']) ++ right.text := by
          simp [hcut.text_eq]
        refine fits_of_flaw hsection hplain htext (.missingName hcut.not_mem hname) ?_
        have hequals : '='.utf8Size = 1 := rfl
        simp [Fragment.span, Fragment.stop, hcut.right_start, hequals, Nat.add_assoc]
      · next hname =>
        split
        · next hvalue =>
          have htext : f.text = [] ++ (left.text ++ '=' :: right.text) ++ [] := by
            simp [hcut.text_eq]
          refine fits_of_flaw hsection hplain htext
            (.missingValue hcut.not_mem hname hvalue) ?_
          rw [← hcut.text_eq]
          rfl
        · next hvalue =>
          split
          · next others hothers => exact fits_severalValues hsection hplain hcut hname hothers
          · next hnone =>
            have hword : Text.IsWord right.trim.text :=
              ⟨hvalue, Fragment.not_isBlank_of_fromBlank? hnone⟩
            exact fits_assign hsection hplain hcut hname hword
  · next hsection =>
    exact ⟨[], f.text, [], by simp, .noSection (by simpa using hsection) hplain, rfl⟩

end

/-- What a line leads to fits it. -/
theorem fits_readLine (r : Reading) (line : Fragment) :
    Fits r line.statement (r.readLine line) := by
  cases htext : line.statement.text with
  | nil =>
    rw [readLine_of_nil htext]
    refine ⟨.inl htext, ?_⟩
    rw [htext]
    simp [Statement.not_isHeader_nil]
  | cons c tail =>
    by_cases hc : c = '['
    · subst hc
      rw [readLine_of_header htext]
      exact fits_readHeader htext
    · have hplain : Statement.IsPlain line.statement.text := by
        rw [htext]
        exact ⟨List.cons_ne_nil _ _, by simpa using hc⟩
      rw [readLine_of_other hplain.1 hplain.2]
      exact fits_readAssignment hplain

end Reading

end LongPress
