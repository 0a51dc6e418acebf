import LongPress.Proofs.Compounds

/-!
# LongPress.Proofs.Descriptions

Reading the description of a key.

Each range of codes has its own way of being described, so each has its own equation for what its
description is read as.  In all of them the base decides: it is described by its first name, or in
hexadecimal if it has none, and only a plain key with a name is read again behind a chord or in a
call (`parseBase_nameOrHex`).

A code of the composite range may have the bit of the right hand and no letter. It is described as a
dash and its base, and names are compared without dashes: so its description is that of its base
(`parse_describe_of_isBare`).  Every other description is read as its own key or not at all.

* `description_reads_back` and `description_read_iff` — the main statements.
-/

namespace LongPress.Keycode

open Text ExpressionError

/-! ## Names and numerals -/

/-- A key is described by a listed name of it, or in hexadecimal. -/
theorem nameOrHex_cases (k : Keycode) :
    (∃ n ∈ names, n.keycode = k ∧ n.name ≠ "-" ∧ nameOrHex k = n.name.toList) ∨
      firstName? k = none ∧ nameOrHex k = '0' :: 'x' :: hex 2 k.toNat := by
  cases hfirst : firstName? k with
  | none => exact .inr ⟨rfl, by simp only [nameOrHex, hfirst]⟩
  | some name =>
    obtain ⟨n, hn, rfl, hk, hdash⟩ := exists_of_firstName? hfirst
    exact .inl ⟨n, hn, hk, hdash, by simp only [nameOrHex, hfirst]⟩

/-- A digit in hexadecimal is neither blank nor a bracket nor a dash. -/
theorem of_mem_hex {width n : Nat} : ∀ x ∈ hex width n, isBlank x = false ∧ x ≠ ')' ∧ x ≠ '-' := by
  have hall : ∀ d : Fin 16, isBlank (Nat.digitChar d.val) = false ∧ Nat.digitChar d.val ≠ ')' ∧
      Nat.digitChar d.val ≠ '-' := by decide
  intro x hx
  rcases List.mem_append.mp hx with hzero | hdigit
  · rw [List.eq_of_mem_replicate hzero]
    exact hall 0
  · obtain ⟨d, hd, rfl⟩ := exists_digit_of_mem_toDigits (by decide) hdigit
    exact hall ⟨d, hd⟩

theorem isBase_nameOrHex (k : Keycode) : IsBase (nameOrHex k) := by
  obtain ⟨n, hn, -, hdash, htext⟩ | ⟨-, htext⟩ := nameOrHex_cases k
  · rw [htext]
    exact isBase_name hn hdash
  · rw [htext]
    refine ⟨List.cons_ne_nil _ _, ?_⟩
    simp only [List.forall_mem_cons]
    exact ⟨by decide, by decide, of_mem_hex⟩

theorem trim_nameOrHex (k : Keycode) : trim (nameOrHex k) = nameOrHex k := by
  have hblank : ∀ x ∈ nameOrHex k, isBlank x = false := fun x hx => ((isBase_nameOrHex k).2 x hx).1
  exact trim_of_ends (fun x hx => hblank x (List.mem_of_head? hx))
    fun x hx => hblank x (List.mem_of_getLast? hx)

/-- A name or a code in hexadecimal is read as the key that it describes. -/
theorem parse_nameOrHex (k : Keycode) : parse (String.ofList (nameOrHex k)) = .ok k := by
  obtain ⟨n, hn, rfl, -, htext⟩ | ⟨-, htext⟩ := nameOrHex_cases k
  · have htrim := trim_nameOrHex n.keycode
    rw [htext] at htrim ⊢
    exact parse_name (written_of_mem n hn).2.2.1 htrim (ofName?_name hn)
  · have hk : k.toNat ≤ 0xffff := Nat.le_of_lt_succ k.toNat_lt
    have hhex : hexDigits? (nameOrHex k) = some (hex 2 k.toNat) := by rw [htext]; rfl
    rw [parse_eq, trim_nameOrHex, parseTrimmed, hhex]
    simp only [readNumeral_hex 2 hk, UInt16.ofNat_toNat]

/-! ## Bases -/

/-- A base that is read again where only plain keys with a name are. -/
def isNamedBase (b : UInt8) : Bool := (firstName? b.toUInt16).isSome && Keycode.isPlain b.toUInt16

theorem parseBase_nameOrHex {before : List Char} (hbefore : ∀ x ∈ before, isBlank x = true)
    (b : UInt8) : parseBase (before ++ nameOrHex b.toUInt16) =
      if isNamedBase b = true then .ok b
      else .error (notBasic (String.ofList (nameOrHex b.toUInt16))) := by
  have htrim : trim (before ++ nameOrHex b.toUInt16) = nameOrHex b.toUInt16 := by
    have htrim := trim_append hbefore (List.forall_mem_nil _)
      fun x hx => ((isBase_nameOrHex b.toUInt16).2 x hx).1
    rwa [List.append_nil] at htrim
  obtain ⟨n, hn, hb, -, htext⟩ | ⟨hnone, htext⟩ := nameOrHex_cases b.toUInt16
  · have hname := ofName?_name hn
    rw [← htext, hb] at hname
    have hsome : (firstName? b.toUInt16).isSome = true := hb ▸ firstName?_isSome hn
    simp only [parseBase, htrim, hname, isNamedBase, hsome, Bool.true_and, base_toUInt16]
  · have hname : ofName? (nameOrHex b.toUInt16) = none := by
      rw [htext]
      exact ofName?_of_hexMark (by simp) (by simp)
    simp [parseBase, htrim, hname, isNamedBase, hnone]

/-- What is read as a base is a plain key with a name. -/
theorem isNamedBase_of_parseBase {text : List Char} {b : UInt8} (h : parseBase text = .ok b) :
    isNamedBase b = true := by
  simp only [parseBase] at h
  split at h
  · next k hname =>
    split at h
    · next hplain =>
      cases h
      obtain ⟨n, hn, -, rfl⟩ := exists_of_ofName? hname
      rw [isNamedBase, toUInt16_base_of_lt (toNat_lt_of_isPlain hplain), firstName?_isSome hn,
        hplain]
      rfl
    · cases h
  · cases h

/-! ## Descriptions of each range -/

variable {k : Keycode}

theorem describe_layerTap (h : k.isLayerTap = true) :
    describe k = String.ofList (callText "lt".toList (decimal k.layer.toNat)
      ([' '] ++ nameOrHex k.base.toUInt16)) := by
  simp [describe, describeChars, h, callText]

theorem describe_modTap (h : k.isModTap = true) :
    describe k = String.ofList (callText "mt".toList (Chord.write k.chord)
      ([' '] ++ nameOrHex k.base.toUInt16)) := by
  simp [describe, describeChars, isLayerTap_of_isModTap h, h, callText]

theorem describe_composite (h : k.isComposite = true) :
    describe k = String.ofList (Chord.write k.chord ++ '-' :: nameOrHex k.base.toUInt16) := by
  simp [describe, describeChars, not_tap_of_isComposite h, h]

theorem describe_of_not_isDualRole (h : k.isDualRole = false) :
    describe k = String.ofList (nameOrHex k) := by
  simp only [isDualRole, Bool.or_eq_false_iff] at h
  simp [describe, describeChars, h]

theorem parse_describe_layerTap (h : k.isLayerTap = true) :
    parse (describe k) = if isNamedBase k.base = true then .ok k
      else .error (notBasic (String.ofList (nameOrHex k.base.toUInt16))) := by
  have hlt : k.layer.toNat < 16 := by
    rw [toNat_layer]
    exact Nat.mod_lt _ (by decide)
  have hlayer := parseLayer_decimal (List.forall_mem_nil _) (List.forall_mem_nil _) hlt
  rw [List.nil_append, List.append_nil, UInt8.ofNat_toNat] at hlayer
  rw [describe_layerTap h, parse_layerTap (comma_not_mem_decimal _), hlayer,
    parseBase_nameOrHex (List.forall_mem_singleton.mpr rfl)]
  split
  · exact congrArg Except.ok (layerTap_parts h)
  · rfl

theorem parse_describe_modTap (h : k.isModTap = true) (hchord : k.chord.WellFormed) :
    parse (describe k) = if isNamedBase k.base = true then .ok k
      else .error (notBasic (String.ofList (nameOrHex k.base.toUInt16))) := by
  have hwrite := Chord.read?_write_of_wellFormed hchord
  have hread := parseChord_of_read? (List.forall_mem_nil _) (List.forall_mem_nil _) hwrite
  rw [List.nil_append, List.append_nil] at hread
  rw [describe_modTap h, parse_modTap (comma_not_mem_of_read? hwrite), hread,
    parseBase_nameOrHex (List.forall_mem_singleton.mpr rfl)]
  split
  · exact congrArg Except.ok (modTap_parts h)
  · rfl

/-- A mod-tap key without letters is not read. -/
theorem parse_describe_modTap_of_letterless (h : k.isModTap = true)
    (hchord : ¬ k.chord.WellFormed) : parse (describe k) = .error (badChord "") := by
  rw [describe_modTap h, Chord.write_of_not_wellFormed (toNat_chord_lt k) hchord,
    parse_modTap (List.not_mem_nil)]
  rfl

theorem parse_describe_composite (h : k.isComposite = true) (hchord : k.chord.WellFormed) :
    parse (describe k) = if isNamedBase k.base = true then .ok k
      else .error (notBasic (String.ofList (nameOrHex k.base.toUInt16))) := by
  have hread := Chord.read?_write_of_wellFormed hchord
  have hname : ofName? (Chord.write k.chord ++ '-' :: nameOrHex k.base.toUInt16) = none := by
    obtain ⟨n, hn, -, hdash, htext⟩ | ⟨-, htext⟩ := nameOrHex_cases k.base.toUInt16
    · rw [htext]
      exact ofName?_composite hread hn hdash fun heq => Chord.write_ne (toNat_chord_lt k) heq.1
    · rw [htext]
      exact ofName?_of_hexMark (by simp) (by simp)
  have hbase := parseBase_nameOrHex (List.forall_mem_nil _) k.base
  rw [List.nil_append] at hbase
  rw [describe_composite h, parse_composite hread (isBase_nameOrHex _) hname, hbase]
  split
  · exact congrArg Except.ok (composite_parts h)
  · rfl

/-- A code of the composite range that has the bit of the right hand and no letter. -/
def IsBare (k : Keycode) : Prop := k.isComposite = true ∧ k.chord = Chord.rightHand

theorem isBare_of_not_wellFormed (h : k.isComposite = true) (hchord : ¬ k.chord.WellFormed) :
    k.IsBare := by
  refine ⟨h, UInt8.toNat_inj.mp ?_⟩
  have hright : Chord.rightHand.toNat = 16 := rfl
  rw [isComposite_iff] at h
  rw [Chord.WellFormed, toNat_chord] at hchord
  rw [hright, toNat_chord]
  omega

/-- A bare code is described as a dash and its base, and that is read as the base. -/
theorem parse_describe_of_isBare (h : k.IsBare) :
    parse (describe k) = if (firstName? k.base.toUInt16).isSome = true then .ok k.base.toUInt16
      else .error (unknown (describe k)) := by
  have htext : describe k = String.ofList ('-' :: nameOrHex k.base.toUInt16) := by
    rw [describe_composite h.1, h.2]
    rfl
  have hbase := isBase_nameOrHex k.base.toUInt16
  have hblank : ∀ x ∈ '-' :: nameOrHex k.base.toUInt16, isBlank x = false ∧ x ≠ ')' :=
    List.forall_mem_cons.mpr ⟨by decide, fun x hx => ⟨(hbase.2 x hx).1, (hbase.2 x hx).2.1⟩⟩
  have hhex : hexDigits? ('-' :: nameOrHex k.base.toUInt16) = none :=
    hexDigits?_of_head (by simp)
  have htrim := @trim_of_ends ('-' :: nameOrHex k.base.toUInt16)
    (fun x hx => (hblank x (List.mem_of_head? hx)).1)
    fun x hx => (hblank x (List.mem_of_getLast? hx)).1
  rw [htext]
  obtain ⟨n, hn, hk, hdash, hname⟩ | ⟨hnone, hname⟩ := nameOrHex_cases k.base.toUInt16
  · have hfound := ofName?_dash_cons hn hdash
    rw [← hname] at hfound
    have hsome := firstName?_isSome hn
    rw [hk] at hfound hsome
    rw [parse_name hhex htrim hfound, if_pos hsome]
  · have hfound : ofName? ('-' :: nameOrHex k.base.toUInt16) = none := by
      rw [hname]
      exact ofName?_of_hexMark (by simp) (by simp)
    have hcall : call? ('-' :: nameOrHex k.base.toUInt16) = none := by
      rw [call?, if_neg]
      intro hlast
      exact (hblank ')' (List.mem_of_getLast? hlast)).2 rfl
    have hcomposite : composite? ('-' :: nameOrHex k.base.toUInt16) = none := by
      have hcut := splitLast?_append (fun hmem => (hbase.2 '-' hmem).2.2 rfl) ([] : List Char)
      have hnil : Chord.read? [] = none := rfl
      rw [List.nil_append] at hcut
      simp [composite?, hcut, hnil]
    rw [parse_compound hhex htrim hfound, parseCompound, hcall]
    simp [hcomposite, hnone]

/-! ## Which descriptions are read -/

/-- A key whose description can be read as itself: if it carries a base, the base is a plain key
with a name, and the modifiers of a mod-tap or composite key have a letter. -/
def IsReadable (k : Keycode) : Prop :=
  k.isDualRole = true → isNamedBase k.base = true ∧ (k.isLayerTap = true ∨ k.chord.WellFormed)

theorem not_isReadable_of_isBare (h : k.IsBare) : ¬ k.IsReadable := by
  intro hreadable
  have hdual : k.isDualRole = true := by rw [isDualRole, h.1, Bool.or_true]
  obtain hlayer | hchord := (hreadable hdual).2
  · rw [(not_tap_of_isComposite h.1).1] at hlayer
    cases hlayer
  · rw [h.2] at hchord
    exact absurd hchord (by decide)

/-- A description that is read if the base is. -/
theorem cases_of_isNamedBase {e : ExpressionError} (hdual : k.isDualRole = true)
    (hcarried : k.isLayerTap = true ∨ k.chord.WellFormed)
    (hread : parse (describe k) = if isNamedBase k.base = true then .ok k else .error e) :
    k.IsReadable ∧ parse (describe k) = .ok k ∨
      ¬ k.IsReadable ∧ ∃ e, parse (describe k) = .error e := by
  by_cases hbase : isNamedBase k.base = true
  · rw [if_pos hbase] at hread
    exact .inl ⟨fun _ => ⟨hbase, hcarried⟩, hread⟩
  · rw [if_neg hbase] at hread
    exact .inr ⟨fun hreadable => hbase (hreadable hdual).1, e, hread⟩

/-- But for the bare codes, a description is read as its own key or not at all. -/
theorem parse_describe_cases (h : ¬ k.IsBare) :
    k.IsReadable ∧ parse (describe k) = .ok k ∨
      ¬ k.IsReadable ∧ ∃ e, parse (describe k) = .error e := by
  by_cases hdual : k.isDualRole = true
  · have hranges := hdual
    simp only [isDualRole, Bool.or_eq_true] at hranges
    rcases hranges with (hmod | hlayer) | hcomposite
    · by_cases hchord : k.chord.WellFormed
      · exact cases_of_isNamedBase hdual (.inr hchord) (parse_describe_modTap hmod hchord)
      · refine .inr ⟨fun hreadable => ?_, _, parse_describe_modTap_of_letterless hmod hchord⟩
        exact (hreadable hdual).2.elim (by simp [isLayerTap_of_isModTap hmod]) hchord
    · exact cases_of_isNamedBase hdual (.inl hlayer) (parse_describe_layerTap hlayer)
    · have hchord : k.chord.WellFormed := Classical.byContradiction fun hchord =>
        h (isBare_of_not_wellFormed hcomposite hchord)
      exact cases_of_isNamedBase hdual (.inr hchord) (parse_describe_composite hcomposite hchord)
  · refine .inl ⟨fun h => absurd h hdual, ?_⟩
    rw [describe_of_not_isDualRole (Bool.eq_false_iff.mpr hdual), parse_nameOrHex]

theorem parse_describe_of_isReadable (h : k.IsReadable) : parse (describe k) = .ok k := by
  have hbare : ¬ k.IsBare := fun hbare => not_isReadable_of_isBare hbare h
  obtain ⟨-, hread⟩ | ⟨hnot, -⟩ := parse_describe_cases hbare
  · exact hread
  · exact absurd h hnot

/-- **A description names no other key**, but for the bare codes: a description is read as its own
key, and just if that is readable, or it is the description of a bare code whose base has a name,
and then it is read as that base. -/
theorem description_read_iff (k c : Keycode) :
    parse (describe k) = .ok c ↔
      k.IsReadable ∧ c = k ∨
      k.IsBare ∧ (firstName? k.base.toUInt16).isSome = true ∧ c = k.base.toUInt16 := by
  constructor
  · intro h
    by_cases hbare : k.IsBare
    · rw [parse_describe_of_isBare hbare] at h
      split at h
      · next hsome => exact .inr ⟨hbare, hsome, (Except.ok.inj h).symm⟩
      · cases h
    · obtain ⟨hreadable, hread⟩ | ⟨-, e, hread⟩ := parse_describe_cases hbare <;> rw [hread] at h
      · exact .inl ⟨hreadable, (Except.ok.inj h).symm⟩
      · cases h
  · rintro (⟨hreadable, rfl⟩ | ⟨hbare, hsome, rfl⟩)
    · exact parse_describe_of_isReadable hreadable
    · rw [parse_describe_of_isBare hbare, if_pos hsome]

/-- A code in hexadecimal may be described as another key. -/
theorem bare_code_read_as_base :
    parse "0x1004" = .ok 0x1004 ∧ describe 0x1004 = "-A" ∧ parse "-A" = .ok 0x4 ∧
      (0x4 : Keycode) ≠ 0x1004 := by
  decide +kernel

/-! ## Which keys are written -/

theorem isReadable_of_mem {n : NamedKey} (hn : n ∈ names) : IsReadable n.keycode := by
  intro hdual
  rw [not_isDualRole_of_mem n hn] at hdual
  cases hdual

theorem isReadable_layerTap (l : UInt8) {b : UInt8} (hb : isNamedBase b = true) :
    IsReadable (layerTap l b) := by
  have hlt : b.toNat < 2 ^ 8 := b.toNat_lt
  have hrange : (layerTap l b).isLayerTap = true := by
    rw [isLayerTap_iff, toNat_layerTap]
    omega
  exact fun _ => ⟨by rwa [base_layerTap], .inl hrange⟩

theorem isReadable_modTap {chord : Chord} (hchord : chord.WellFormed) {b : UInt8}
    (hb : isNamedBase b = true) : IsReadable (modTap chord b) :=
  fun _ => ⟨by rwa [base_modTap], .inr (by rwa [chord_modTap hchord.1])⟩

theorem isReadable_composite {chord : Chord} (hchord : chord.WellFormed) {b : UInt8}
    (hb : isNamedBase b = true) : IsReadable (composite chord b) :=
  fun _ => ⟨by rwa [base_composite], .inr (by rwa [chord_composite hchord.1])⟩

theorem wellFormed_of_parseChord {text : List Char} {chord : Chord}
    (h : parseChord text = .ok chord) : chord.WellFormed := by
  simp only [parseChord] at h
  split at h
  · next hread =>
    cases h
    exact Chord.wellFormed_of_read? hread
  · cases h

theorem isReadable_of_parseCall {function first second : List Char}
    (h : parseCall function first second = .ok k) : k.IsReadable := by
  simp only [parseCall, bind, Except.bind, pure, Except.pure] at h
  split at h
  · cases hlayer : parseLayer first with
    | error e => simp [hlayer] at h
    | ok layer =>
      cases hbase : parseBase second with
      | error e => simp [hlayer, hbase] at h
      | ok base =>
        simp only [hlayer, hbase, Except.ok.injEq] at h
        exact h ▸ isReadable_layerTap layer (isNamedBase_of_parseBase hbase)
  · split at h
    · cases hchord : parseChord first with
      | error e => simp [hchord] at h
      | ok chord =>
        cases hbase : parseBase second with
        | error e => simp [hchord, hbase] at h
        | ok base =>
          simp only [hchord, hbase, Except.ok.injEq] at h
          exact h ▸ isReadable_modTap (wellFormed_of_parseChord hchord)
            (isNamedBase_of_parseBase hbase)
    · cases h

theorem isReadable_of_parseCompound {text : List Char} (h : parseCompound text = .ok k) :
    k.IsReadable := by
  unfold parseCompound at h
  split at h
  · split at h
    · exact isReadable_of_parseCall h
    · cases h
  · split at h
    · next chord base hcomposite =>
      obtain ⟨parts, -, hmap⟩ := Option.bind_eq_some_iff.mp hcomposite
      obtain ⟨c, hread, hparts⟩ := Option.map_eq_some_iff.mp hmap
      cases hparts
      cases hbase : parseBase parts.2 with
      | error e => simp [hbase, Except.map] at h
      | ok b =>
        simp only [hbase, Except.map, Except.ok.injEq] at h
        exact h ▸ isReadable_composite (Chord.wellFormed_of_read? hread)
          (isNamedBase_of_parseBase hbase)
    · cases h

/-- Whatever is written, but for the codes in hexadecimal, can be described and read again. -/
theorem isReadable_of_parse {t : String} (ht : hexDigits? (trim t.toList) = none)
    (h : parse t = .ok k) : k.IsReadable := by
  simp only [parse, parseTrimmed, ht] at h
  cases hname : ofName? (trim t.toList) with
  | some found =>
    simp only [hname, Except.ok.injEq] at h
    obtain ⟨n, hn, -, rfl⟩ := exists_of_ofName? hname
    exact h ▸ isReadable_of_mem hn
  | none =>
    simp only [hname] at h
    exact isReadable_of_parseCompound h

theorem hexDigits?_of_unmarked {text : List Char} (h : ¬ "0x".toList <+: text) :
    hexDigits? text = none := by
  unfold hexDigits?
  split
  · next digits => exact absurd (List.prefix_append "0x".toList digits) h
  · rfl

/-- **Describing a key that was read reads back**: every text that does not start with the mark of a
code in hexadecimal, and that is read as a key, has a description that is read as the same key. -/
theorem description_reads_back {t : String} {c : Keycode}
    (ht : ¬ "0x".toList <+: trim t.toList) (h : parse t = .ok c) : parse (describe c) = .ok c :=
  parse_describe_of_isReadable (isReadable_of_parse (hexDigits?_of_unmarked ht) h)

theorem description_reads_back_of_twoLetters :
    ¬ "0x".toList <+: trim "\tmt( G-S-G, \\left-brace ) ".toList ∧
      parse "\tmt( G-S-G, \\left-brace ) " = .ok 0x6a2f ∧
      describe 0x6a2f = "mt(S-G, LeftBrace)" ∧ parse (describe 0x6a2f) = .ok 0x6a2f := by
  have ht : ¬ "0x".toList <+: trim "\tmt( G-S-G, \\left-brace ) ".toList := by decide +kernel
  have hread : parse "\tmt( G-S-G, \\left-brace ) " = .ok 0x6a2f := by decide +kernel
  exact ⟨ht, hread, by decide +kernel, description_reads_back ht hread⟩

end LongPress.Keycode
