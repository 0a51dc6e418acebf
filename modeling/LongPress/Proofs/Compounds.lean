import LongPress.Proofs.Chords
import LongPress.Proofs.Ranges

/-!
# LongPress.Proofs.Compounds

What compound expressions mean: a chord and a key with a dash between them, `mt(chord, key)` and
`lt(layer, key)`.

A call is never taken for a name, because no name has a bracket; so it means what its arguments mean
(`parse_modTap`, `parse_layerTap`). A chord and a key with a dash between them may be taken for one,
because names are compared without dashes. It is not if the key has a dashless text and the chord is
not `A-S` in front of `Down` or `Up`, which would be the names of two control keys
(`ofName?_composite`): every other way to cut a name after a text that a chord may leave has no name
behind the cut (`cut_of_mem`).

* `composed_as_written` — the main statement.
-/

namespace LongPress.Keycode

open Text ExpressionError

/-! ## Names that start like a chord -/

theorem cut_of_mem : ∀ n ∈ names, ∀ i ∈ List.range ((comparisonKey n).length + 1),
    Chord.isChordForm ((comparisonKey n).take i) = true →
      (comparisonKey n).drop i = [] ∨ ofKey? ((comparisonKey n).drop i) = none ∨
      (comparisonKey n).take i = ['a', 's'] ∧
        ((comparisonKey n).drop i = "down".toList ∨ (comparisonKey n).drop i = "up".toList) := by
  decide +kernel

/-- A name that is compared by the text of a chord and that of a name is that of a control key. -/
theorem control_of_comparisonKey {m n : NamedKey} {form : List Char} (hm : m ∈ names)
    (hn : n ∈ names) (hne : normalName n.name.toList ≠ []) (hform : Chord.isChordForm form = true)
    (h : comparisonKey m = form ++ normalName n.name.toList) :
    form = ['a', 's'] ∧ (n.name = "Down" ∨ n.name = "Up") := by
  have hkey : comparisonKey n = normalName n.name.toList := keyOf_of_ne_nil hne
  have hcut := cut_of_mem m hm form.length
  rw [h, List.take_left, List.drop_left] at hcut
  have hlength : form.length ∈ List.range ((form ++ normalName n.name.toList).length + 1) := by
    rw [List.mem_range, List.length_append]
    omega
  obtain hnil | hnone | ⟨hform, hname⟩ := hcut hlength hform
  · exact absurd hnil hne
  · rw [← hkey, ofKey?_comparisonKey hn] at hnone
    cases hnone
  · refine ⟨hform, ?_⟩
    rw [← hkey] at hname
    rcases hname with hname | hname
    · have hdown : n = ⟨"Down", 0x51⟩ :=
        eq_of_comparisonKey hn (by decide +kernel) (hname.trans (by decide +kernel))
      exact .inl (by rw [hdown])
    · have hup : n = ⟨"Up", 0x52⟩ :=
        eq_of_comparisonKey hn (by decide +kernel) (hname.trans (by decide +kernel))
      exact .inr (by rw [hup])

/-! ## Composite keys -/

variable {text : List Char} {chord : Chord}

/-- No character of a chord is blank, nor does it start another kind of expression. -/
theorem of_mem_alphabet : ∀ x ∈ Chord.alphabet,
    isBlank x = false ∧ x ≠ '\\' ∧ x ≠ '0' ∧ x ≠ ',' :=
  List.all_iff_forall_prop.mp (by decide)

theorem unescaped_chord_append (h : Chord.read? text = some chord) (more : List Char) :
    unescaped (text ++ more) = text ++ more := by
  cases htext : text with
  | nil => exact absurd htext (Chord.ne_nil_of_read? h)
  | cons x rest =>
    have hx := of_mem_alphabet x (Chord.mem_alphabet_of_read? h x (by rw [htext]; exact .head _))
    rw [List.cons_append]
    unfold unescaped
    split
    · next heq => exact absurd (List.cons.inj heq).1 hx.2.1
    · rfl

theorem keyOf_chord_append (h : Chord.read? text = some chord) (base : List Char) :
    keyOf (unescaped (text ++ '-' :: base)) = normalName text ++ normalName base := by
  have hnormal : normalName (text ++ '-' :: base) = normalName text ++ normalName base := by
    have hdash : normalName ['-'] = [] := rfl
    rw [← List.singleton_append, normalName_append, normalName_append, hdash, List.nil_append]
  have hne : normalName (text ++ '-' :: base) ≠ [] := by
    rw [hnormal]
    exact List.append_ne_nil_of_left_ne_nil (Chord.normalName_ne_nil_of_read? h) _
  rw [unescaped_chord_append h, keyOf_of_ne_nil hne, hnormal]

/-- A chord and a name with a dash between them are no name, but for two that are those of control
keys. -/
theorem ofName?_composite {n : NamedKey} (h : Chord.read? text = some chord) (hn : n ∈ names)
    (hdash : n.name ≠ "-")
    (hcontrol : ¬ (text = "A-S".toList ∧ (n.name = "Down" ∨ n.name = "Up"))) :
    ofName? (text ++ '-' :: n.name.toList) = none := by
  have hne : normalName n.name.toList ≠ [] := fun hnil =>
    hdash ((compared_of_mem n hn).2.1 hnil)
  rw [ofName?_eq, keyOf_chord_append h]
  apply ofKey?_eq_none
  intro m hm hkey
  obtain ⟨hform, hname⟩ :=
    control_of_comparisonKey hm hn hne (Chord.isChordForm_of_read? h) hkey
  exact hcontrol ⟨Chord.eq_of_normalName_of_read? h hform, hname⟩

theorem parse_eq (text : List Char) : parse (String.ofList text) = parseTrimmed (trim text) := by
  rw [parse, String.toList_ofList]

theorem hexDigits?_of_head {text : List Char} (h : text.head? ≠ some '0') :
    hexDigits? text = none := by
  unfold hexDigits?
  split
  · exact absurd rfl h
  · rfl

/-- What is not a code is a name, if it can be. -/
theorem parse_name {text : List Char} {k : Keycode} (hhex : hexDigits? text = none)
    (htrim : trim text = text) (hname : ofName? text = some k) :
    parse (String.ofList text) = .ok k := by
  rw [parse_eq, htrim, parseTrimmed, hhex, hname]

/-- What is neither a code nor a name is a compound expression. -/
theorem parse_compound {text : List Char} (hhex : hexDigits? text = none)
    (htrim : trim text = text) (hname : ofName? text = none) :
    parse (String.ofList text) = parseCompound text := by
  rw [parse_eq, htrim, parseTrimmed, hhex, hname]

/-- A chord does not start like a code. -/
theorem hexDigits?_chord_append (h : Chord.read? text = some chord) (more : List Char) :
    hexDigits? (text ++ more) = none := by
  apply hexDigits?_of_head
  rw [List.head?_append_of_ne_nil _ (Chord.ne_nil_of_read? h)]
  intro heq
  exact (of_mem_alphabet '0' (Chord.mem_alphabet_of_read? h '0' (List.mem_of_head? heq))).2.2.1 rfl

theorem trim_chord_append (h : Chord.read? text = some chord) {more : List Char}
    (hmore : ∀ x ∈ more, isBlank x = false) : trim (text ++ '-' :: more) = text ++ '-' :: more := by
  apply trim_of_ends
  · intro x hx
    rw [List.head?_append_of_ne_nil _ (Chord.ne_nil_of_read? h)] at hx
    exact (of_mem_alphabet x (Chord.mem_alphabet_of_read? h x (List.mem_of_head? hx))).1
  · intro x hx
    rw [List.getLast?_append_of_ne_nil _ (List.cons_ne_nil '-' more)] at hx
    rcases List.mem_cons.mp (List.mem_of_getLast? hx) with rfl | hmem
    · rfl
    · exact hmore x hmem

/-- A text that can stand behind the dash of a composite key. -/
def IsBase (text : List Char) : Prop :=
  text ≠ [] ∧ ∀ x ∈ text, isBlank x = false ∧ x ≠ ')' ∧ x ≠ '-'

theorem isBase_name {n : NamedKey} (hn : n ∈ names) (hdash : n.name ≠ "-") :
    IsBase n.name.toList := by
  obtain ⟨hne, -, -, hchars⟩ := written_of_mem n hn
  refine ⟨hne, fun x hx => ?_⟩
  obtain ⟨hblank, hbracket, hx'⟩ := hchars x hx
  exact ⟨hblank, hbracket, fun heq => hdash (hx' heq)⟩

theorem parseCompound_composite {base : List Char} (h : Chord.read? text = some chord)
    (hbase : IsBase base) :
    parseCompound (text ++ '-' :: base) = (parseBase base).map (composite chord) := by
  obtain ⟨last, hlast⟩ : ∃ x, base.getLast? = some x :=
    ⟨_, List.getLast?_eq_some_getLast hbase.1⟩
  have hcall : call? (text ++ '-' :: base) = none := by
    have hbracket := (hbase.2 last (List.mem_of_getLast? hlast)).2.1
    simp [call?, List.getLast?_cons, hlast, hbracket]
  have hcut : splitLast? '-' (text ++ '-' :: base) = some (text, base) :=
    splitLast?_append (fun hmem => (hbase.2 '-' hmem).2.2 rfl) text
  have hcomposite : composite? (text ++ '-' :: base) = some (chord, base) := by
    simp [composite?, hcut, h]
  simp only [parseCompound, hcall, hcomposite]

/-- A chord and a base with a dash between them are a composite key, unless they are a name. -/
theorem parse_composite {base : List Char} (h : Chord.read? text = some chord) (hbase : IsBase base)
    (hname : ofName? (text ++ '-' :: base) = none) :
    parse (String.ofList (text ++ '-' :: base)) = (parseBase base).map (composite chord) := by
  have htrim := trim_chord_append h fun x hx => (hbase.2 x hx).1
  rw [parse_compound (hexDigits?_chord_append h _) htrim hname, parseCompound_composite h hbase]

theorem isDualRole_composite (h : chord.WellFormed) (b : UInt8) :
    (composite chord b).isDualRole = true := by
  have hb : b.toNat < 2 ^ 8 := b.toNat_lt
  have hrange : (composite chord b).isComposite = true := by
    rw [isComposite_iff, toNat_composite, Nat.mod_eq_of_lt h.1]
    have hlt := h.1
    have hletter := h.2
    omega
  rw [isDualRole, hrange, Bool.or_true]

/-- A chord and a dash with another dash between them are the key of a letter, or nothing. -/
theorem not_isDualRole_of_parse_dashes (h : Chord.read? text = some chord) {k : Keycode}
    (hk : parse (String.ofList (text ++ ['-', '-'])) = .ok k) : k.isDualRole = false := by
  have hhex := hexDigits?_chord_append h ['-', '-']
  have htrim : trim (text ++ ['-', '-']) = text ++ ['-', '-'] :=
    trim_chord_append h (List.forall_mem_singleton.mpr rfl)
  cases hname : ofName? (text ++ ['-', '-']) with
  | some found =>
    rw [parse_name hhex htrim hname] at hk
    cases hk
    obtain ⟨n, hn, -, rfl⟩ := exists_of_ofName? hname
    exact not_isDualRole_of_mem n hn
  | none =>
    have hcall : call? (text ++ ['-', '-']) = none := by simp [call?]
    have hcut : splitLast? '-' (text ++ ['-', '-']) = some (text ++ ['-'], []) := by
      have hcut := splitLast?_append (List.not_mem_nil (a := '-')) (text ++ ['-'])
      rwa [List.append_assoc] at hcut
    have hcomposite : composite? (text ++ ['-', '-']) = none := by
      simp [composite?, hcut, Chord.read?_concat_dash]
    rw [parse_compound hhex htrim hname, parseCompound, hcall] at hk
    simp only [hcomposite] at hk
    cases hk

/-! ## Calls -/

/-- The text of a call. -/
def callText (function first second : List Char) : List Char :=
  function ++ '(' :: (first ++ ',' :: second) ++ [')']

theorem parse_call {function first second : List Char}
    (hfunction : function = "lt".toList ∨ function = "mt".toList) (hfirst : ',' ∉ first) :
    parse (String.ofList (callText function first second)) = parseCall function first second := by
  have hbracket : '(' ∉ function := by rcases hfunction with rfl | rfl <;> decide
  have hcall : call? (callText function first second) =
      some (function, first ++ ',' :: second) := by
    rw [call?, callText, if_pos List.getLast?_concat, List.dropLast_concat,
      splitFirst?_append hbracket]
  have htrim : trim (callText function first second) = callText function first second := by
    apply trim_of_ends
    · intro x hx
      rcases hfunction with rfl | rfl <;> (cases hx; rfl)
    · intro x hx
      rw [callText, List.getLast?_concat] at hx
      cases hx
      rfl
  have hhex : hexDigits? (callText function first second) = none := by
    rcases hfunction with rfl | rfl <;> rfl
  have hname : ofName? (callText function first second) = none :=
    ofName?_of_bracket (by simp [callText])
  rw [parse_compound hhex htrim hname, parseCompound, hcall]
  simp only [splitFirst?_append hfirst]

/-- A mod-tap key is a chord and a base. -/
theorem parse_modTap {first second : List Char} (hfirst : ',' ∉ first) :
    parse (String.ofList (callText "mt".toList first second)) =
      (parseChord first).bind fun chord => (parseBase second).map (modTap chord) := by
  rw [parse_call (.inr rfl) hfirst]
  rfl

/-- A layer-tap key is a layer and a base. -/
theorem parse_layerTap {first second : List Char} (hfirst : ',' ∉ first) :
    parse (String.ofList (callText "lt".toList first second)) =
      (parseLayer first).bind fun layer => (parseBase second).map (layerTap layer) := by
  rw [parse_call (.inl rfl) hfirst]
  rfl

/-! ## Arguments -/

theorem comma_not_mem_of_read? (h : Chord.read? text = some chord) : ',' ∉ text := fun hcomma =>
  (of_mem_alphabet ',' (Chord.mem_alphabet_of_read? h ',' hcomma)).2.2.2 rfl

theorem comma_not_mem_decimal (n : Nat) : ',' ∉ decimal n := by
  intro h
  obtain ⟨d, hd, heq⟩ := exists_digit_of_mem_toDigits (by decide) h
  have hall : ∀ d : Fin 10, ',' ≠ Nat.digitChar d.val := by decide
  exact hall ⟨d, hd⟩ heq

section

variable {before after : List Char} (hbefore : ∀ x ∈ before, isBlank x = true)
  (hafter : ∀ x ∈ after, isBlank x = true)

include hbefore hafter

theorem parseChord_of_read? (h : Chord.read? text = some chord) :
    parseChord (before ++ text ++ after) = .ok chord := by
  have htrim : trim (before ++ text ++ after) = text := trim_append hbefore hafter fun x hx =>
    (of_mem_alphabet x (Chord.mem_alphabet_of_read? h x hx)).1
  simp only [parseChord, htrim, h]

theorem parseLayer_decimal {l : Nat} (hl : l < 16) :
    parseLayer (before ++ decimal l ++ after) = .ok (UInt8.ofNat l) := by
  have hdigit : ∀ x ∈ decimal l, isBlank x = false := by
    intro x hx
    obtain ⟨d, hd, rfl⟩ := exists_digit_of_mem_toDigits (by decide) hx
    have hall : ∀ d : Fin 10, isBlank (Nat.digitChar d.val) = false := by decide
    exact hall ⟨d, hd⟩
  simp only [parseLayer, trim_append hbefore hafter hdigit,
    readNumeral_decimal (by omega : l ≤ 0xff), if_pos hl]

theorem parseBase_name {n : NamedKey} (hn : n ∈ names) (hplain : n.keycode.isPlain = true) :
    parseBase (before ++ n.name.toList ++ after) = .ok n.keycode.base := by
  have htrim : trim (before ++ n.name.toList ++ after) = n.name.toList :=
    trim_append hbefore hafter fun x hx => ((written_of_mem n hn).2.2.2 x hx).1
  simp only [parseBase, htrim, ofName?_name hn, if_pos hplain]

end

/-! ## All three forms -/

/-- The chord of alt and shift in front of two keys is the name of a control key. -/
theorem not_isDualRole_of_parse_control {k : Keycode}
    (hk : parse "A-S-Down" = .ok k ∨ parse "A-S-Up" = .ok k) : k.isDualRole = false := by
  have hdown : parse "A-S-Down" = .ok ControlKey.shorter.keycode := by decide +kernel
  have hup : parse "A-S-Up" = .ok ControlKey.longer.keycode := by decide +kernel
  rw [hdown, hup] at hk
  rcases hk with hk | hk <;> (cases hk; rfl)

theorem comma_not_mem_of_blank {before after : List Char} (hbefore : ∀ x ∈ before, isBlank x = true)
    (hafter : ∀ x ∈ after, isBlank x = true) (htext : ',' ∉ text) :
    ',' ∉ before ++ text ++ after := by
  have hcomma : isBlank ',' = false := rfl
  simp only [List.mem_append, not_or]
  exact ⟨⟨fun h => absurd (hbefore _ h) (by simp [hcomma]), htext⟩,
    fun h => absurd (hafter _ h) (by simp [hcomma])⟩

section

variable {m : String} {n : NamedKey} (hm : Chord.read? m.toList = some chord) (hn : n ∈ names)
  (hplain : n.keycode.isPlain = true)

include hm hn hplain

/-- The composite key of a chord and a name, but for the dash and the names of control keys. -/
theorem parse_composite_iff :
    parse (m ++ "-" ++ n.name) = .ok (composite chord n.keycode.base) ↔
      n.name ≠ "-" ∧ ¬ (m = "A-S" ∧ (n.name = "Down" ∨ n.name = "Up")) := by
  have hcomposite : ¬ (composite chord n.keycode.base).isDualRole = false := by
    rw [isDualRole_composite (Chord.wellFormed_of_read? hm)]
    decide
  refine ⟨fun hk => ⟨?_, ?_⟩, ?_⟩
  · intro hdash
    have htext : m ++ "-" ++ n.name = String.ofList (m.toList ++ ['-', '-']) := by
      apply String.toList_injective
      simp [hdash]
    rw [htext] at hk
    exact hcomposite (not_isDualRole_of_parse_dashes hm hk)
  · rintro ⟨rfl, hname⟩
    apply hcomposite
    apply not_isDualRole_of_parse_control
    rcases hname with hname | hname <;> rw [hname] at hk
    · exact .inl hk
    · exact .inr hk
  · rintro ⟨hdash, hcontrol⟩
    have htext : m ++ "-" ++ n.name = String.ofList (m.toList ++ '-' :: n.name.toList) := by
      apply String.toList_injective
      simp
    have hname := ofName?_composite hm hn hdash fun ⟨heq, hkey⟩ =>
      hcontrol ⟨String.toList_injective heq, hkey⟩
    have hself := parseBase_name (List.forall_mem_nil _) (List.forall_mem_nil _) hn hplain
    rw [List.nil_append, List.append_nil] at hself
    rw [htext, parse_composite hm (isBase_name hn hdash) hname, hself]
    rfl

variable {b₁ b₂ b₃ b₄ : String} (h₁ : ∀ x ∈ b₁.toList, isBlank x = true)
  (h₂ : ∀ x ∈ b₂.toList, isBlank x = true) (h₃ : ∀ x ∈ b₃.toList, isBlank x = true)
  (h₄ : ∀ x ∈ b₄.toList, isBlank x = true)

include h₁ h₂ h₃ h₄

theorem parse_modTap_name :
    parse ("mt(" ++ b₁ ++ m ++ b₂ ++ "," ++ b₃ ++ n.name ++ b₄ ++ ")") =
      .ok (modTap chord n.keycode.base) := by
  have htext : "mt(" ++ b₁ ++ m ++ b₂ ++ "," ++ b₃ ++ n.name ++ b₄ ++ ")" =
      String.ofList (callText "mt".toList (b₁.toList ++ m.toList ++ b₂.toList)
        (b₃.toList ++ n.name.toList ++ b₄.toList)) := by
    apply String.toList_injective
    simp [callText]
  have hcomma := comma_not_mem_of_blank h₁ h₂ (comma_not_mem_of_read? hm)
  rw [htext, parse_modTap hcomma, parseChord_of_read? h₁ h₂ hm, parseBase_name h₃ h₄ hn hplain]
  rfl

omit hm

theorem parse_layerTap_name {l : Nat} (hl : l < 16) :
    parse ("lt(" ++ b₁ ++ toString l ++ b₂ ++ "," ++ b₃ ++ n.name ++ b₄ ++ ")") =
      .ok (layerTap (UInt8.ofNat l) n.keycode.base) := by
  have htext : "lt(" ++ b₁ ++ toString l ++ b₂ ++ "," ++ b₃ ++ n.name ++ b₄ ++ ")" =
      String.ofList (callText "lt".toList (b₁.toList ++ decimal l ++ b₂.toList)
        (b₃.toList ++ n.name.toList ++ b₄.toList)) := by
    apply String.toList_injective
    simp [callText, decimal]
  have hcomma := comma_not_mem_of_blank h₁ h₂ (comma_not_mem_decimal l)
  rw [htext, parse_layerTap hcomma, parseLayer_decimal h₁ h₂ hl, parseBase_name h₃ h₄ hn hplain]
  rfl

end

/-- **Composed expressions mean what they say**: for every chord as it may be written, every name of
a plain key and every layer, with any blanks around the arguments, `mt(chord, key)` is the mod-tap
key and `lt(layer, key)` the layer-tap key of its arguments.  The chord and the name with a dash
between them are the composite key, unless the name is the dash itself, or both together are, but
for dashes and case, the name of a control key. -/
theorem composed_as_written {m : String} {chord : Chord} {n : NamedKey} {l : Nat}
    (hm : Chord.read? m.toList = some chord) (hn : n ∈ names) (hplain : n.keycode.isPlain = true)
    (hl : l < 16) {b₁ b₂ b₃ b₄ : String}
    (hblank : ∀ b ∈ [b₁, b₂, b₃, b₄], ∀ x ∈ b.toList, isBlank x = true) :
    (parse (m ++ "-" ++ n.name) = .ok (composite chord n.keycode.base) ↔
      n.name ≠ "-" ∧ ¬ (m = "A-S" ∧ (n.name = "Down" ∨ n.name = "Up"))) ∧
    parse ("mt(" ++ b₁ ++ m ++ b₂ ++ "," ++ b₃ ++ n.name ++ b₄ ++ ")") =
      .ok (modTap chord n.keycode.base) ∧
    parse ("lt(" ++ b₁ ++ toString l ++ b₂ ++ "," ++ b₃ ++ n.name ++ b₄ ++ ")") =
      .ok (layerTap (UInt8.ofNat l) n.keycode.base) := by
  have h₁ := hblank b₁ (by simp)
  have h₂ := hblank b₂ (by simp)
  have h₃ := hblank b₃ (by simp)
  have h₄ := hblank b₄ (by simp)
  exact ⟨parse_composite_iff hm hn hplain, parse_modTap_name hm hn hplain h₁ h₂ h₃ h₄,
    parse_layerTap_name hn hplain h₁ h₂ h₃ h₄ hl⟩

theorem composed_as_written_of_semicolon :
    parse "RS-RC-RS-;" = .ok 0x1333 ∧ parse "mt( RS-RC-RS,\t; )" = .ok 0x7333 ∧
      parse "lt( 15,\t; )" = .ok 0x4f33 := by
  have hblank : ∀ b ∈ [" ", "", "\t", " "], ∀ x ∈ b.toList, isBlank x = true := by
    simp only [← List.all_iff_forall_prop]
    decide
  have h := @composed_as_written "RS-RC-RS" 0x13 ⟨";", 0x33⟩ 15 (by decide +kernel)
    (by decide +kernel) (by decide) (by decide) " " "" "\t" " " hblank
  exact ⟨h.1.mpr (by decide), h.2.1, h.2.2⟩

/-- The chord of alt and shift with the arrow down is not a composite key: it is taken for the
control key that makes the timeout shorter. -/
theorem control_key_for_composite :
    Chord.read? "A-S".toList = some 0x6 ∧ ⟨"Down", 0x51⟩ ∈ names ∧
      Keycode.isPlain 0x51 = true ∧ parse "A-S-Down" = .ok ControlKey.shorter.keycode ∧
      parse "A-S-Down" ≠ .ok (composite 0x6 0x51) := by
  decide +kernel

end LongPress.Keycode
