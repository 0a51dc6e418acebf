import Mathlib.Data.Bool.AllAny
import Mathlib.Data.List.Nodup
import LongPress.Keycode.Expression

/-!
# LongPress.Proofs.Names

Which names find which keys.

A name is looked up as it is and then in its normal form.  Both look-ups are one: what is looked up
is the normal form, or the name itself if nothing is left of it (`ofName?_eq`).  No two listed names
are compared by the same key (`nodup_comparisonKeys`), so each of them finds its own key
(`ofName?_name`), and the first name of a key describes it.

The facts about single names come from the listing by evaluation, once for each question that later
modules ask: `written_of_mem` about names as they are written, `compared_of_mem` about what they are
compared by.
-/

namespace LongPress.Keycode

open Text

/-! ## What a text is compared by -/

/-- The normal form of a text, or the text itself if nothing is left of it. -/
def keyOf (text : List Char) : List Char :=
  match normalName text with
  | [] => text
  | key => key

theorem comparisonKey_eq (n : NamedKey) : comparisonKey n = keyOf n.name.toList := rfl

theorem keyOf_of_nil {text : List Char} (h : normalName text = []) : keyOf text = text := by
  simp [keyOf, h]

theorem keyOf_of_ne_nil {text : List Char} (h : normalName text ≠ []) :
    keyOf text = normalName text := by
  unfold keyOf
  split
  · next hnil => exact absurd hnil h
  · rfl

theorem normalName_append (a b : List Char) :
    normalName (a ++ b) = normalName a ++ normalName b := by
  simp [normalName, fold]

theorem mem_normalName {text : List Char} {c : Char} (hc : c ∈ text) (hdash : c ≠ '-')
    (hbar : c ≠ '_') (hfold : foldChar c = c) : c ∈ normalName text := by
  have hkept : c ∈ text.filter fun c => c != '-' && c != '_' := by simp [hc, hdash, hbar]
  exact List.mem_map.mpr ⟨c, hkept, hfold⟩

/-- A character that no normal form changes is in what a text is looked up by. -/
theorem mem_keyOf_unescaped {text : List Char} {c : Char} (hc : c ∈ text) (hescape : c ≠ '\\')
    (hdash : c ≠ '-') (hbar : c ≠ '_') (hfold : foldChar c = c) :
    c ∈ keyOf (unescaped text) := by
  have hmem : c ∈ unescaped text := by
    unfold unescaped
    split
    · simpa [hescape] using hc
    · exact hc
  have hnormal := mem_normalName hmem hdash hbar hfold
  rwa [keyOf_of_ne_nil (List.ne_nil_of_mem hnormal)]

/-! ## The listing -/

theorem written_of_mem : ∀ n ∈ names,
    n.name.toList ≠ [] ∧ unescaped n.name.toList = n.name.toList ∧
      hexDigits? n.name.toList = none ∧
      ∀ c ∈ n.name.toList, isBlank c = false ∧ c ≠ ')' ∧ (c = '-' → n.name = "-") := by
  -- Otherwise all characters that there are would be checked, not those of the name.
  simp only [← List.all_iff_forall_prop]
  decide +kernel

theorem compared_of_mem : ∀ n ∈ names,
    keyOf (comparisonKey n) = comparisonKey n ∧ (normalName n.name.toList = [] → n.name = "-") ∧
      ∀ c ∈ comparisonKey n, c ≠ ')' ∧ (c = 'x' → comparisonKey n = ['x']) := by
  simp only [← List.all_iff_forall_prop]
  decide +kernel

theorem not_isDualRole_of_mem : ∀ n ∈ names, n.keycode.isDualRole = false := by decide +kernel

/-- No two names are compared by the same key. -/
theorem nodup_comparisonKeys : (names.map comparisonKey).Nodup := by
  -- Numbers are compared faster than lists.
  apply List.Nodup.of_map (List.foldl (fun code c => 256 * code + c.toNat) 0)
  rw [List.map_map]
  decide +kernel

theorem eq_of_comparisonKey {m n : NamedKey} (hm : m ∈ names) (hn : n ∈ names)
    (h : comparisonKey m = comparisonKey n) : m = n :=
  List.inj_on_of_nodup_map nodup_comparisonKeys hm hn h

/-! ## Looking up -/

theorem ofKey?_comparisonKey {n : NamedKey} (hn : n ∈ names) :
    ofKey? (comparisonKey n) = some n.keycode := by
  obtain ⟨m, hfound⟩ : ∃ m, names.find? (comparisonKey · == comparisonKey n) = some m := by
    apply Option.isSome_iff_exists.mp
    rw [List.find?_isSome]
    exact ⟨n, hn, beq_self_eq_true _⟩
  have hkey : comparisonKey m = comparisonKey n := by simpa using List.find?_some hfound
  rw [ofKey?, hfound, eq_of_comparisonKey (List.mem_of_find?_eq_some hfound) hn hkey]
  rfl

theorem exists_of_ofKey? {key : List Char} {k : Keycode} (h : ofKey? key = some k) :
    ∃ n ∈ names, comparisonKey n = key ∧ n.keycode = k := by
  obtain ⟨n, hfound, hk⟩ := Option.map_eq_some_iff.mp h
  exact ⟨n, List.mem_of_find?_eq_some hfound, by simpa using List.find?_some hfound, hk⟩

theorem ofKey?_eq_none {key : List Char} (h : ∀ n ∈ names, comparisonKey n ≠ key) :
    ofKey? key = none := by
  rw [Option.eq_none_iff_forall_not_mem]
  intro k hk
  obtain ⟨n, hn, hkey, -⟩ := exists_of_ofKey? hk
  exact h n hn hkey

/-- Looking a name up as it is and then in its normal form is looking up what it is compared by. -/
theorem ofName?_eq (text : List Char) : ofName? text = ofKey? (keyOf (unescaped text)) := by
  unfold ofName?
  cases hfound : ofKey? (unescaped text) with
  | some k =>
    obtain ⟨n, hn, hkey, -⟩ := exists_of_ofKey? hfound
    have hself := (compared_of_mem n hn).1
    rw [hkey] at hself
    simp only [hself, hfound]
  | none =>
    cases hnormal : normalName (unescaped text) with
    | nil => simp only [keyOf_of_nil hnormal, hfound, hnormal]
    | cons c rest => simp only [keyOf, hnormal, hfound]

/-- Every listed name finds its key. -/
theorem ofName?_name {n : NamedKey} (hn : n ∈ names) :
    ofName? n.name.toList = some n.keycode := by
  rw [ofName?_eq, (written_of_mem n hn).2.1, ← comparisonKey_eq, ofKey?_comparisonKey hn]

/-- Nor does a dash in front of a name make a difference. -/
theorem ofName?_dash_cons {n : NamedKey} (hn : n ∈ names) (hdash : n.name ≠ "-") :
    ofName? ('-' :: n.name.toList) = some n.keycode := by
  have hne : normalName n.name.toList ≠ [] := fun hnil => hdash ((compared_of_mem n hn).2.1 hnil)
  have hnormal : normalName ('-' :: n.name.toList) = normalName n.name.toList :=
    normalName_append ['-'] n.name.toList
  have hescape : unescaped ('-' :: n.name.toList) = '-' :: n.name.toList := by
    unfold unescaped
    split
    · next heq => cases (List.cons.inj heq).1
    · rfl
  rw [ofName?_eq, hescape, keyOf_of_ne_nil (hnormal ▸ hne), hnormal, ← keyOf_of_ne_nil hne,
    ← comparisonKey_eq, ofKey?_comparisonKey hn]

theorem exists_of_ofName? {text : List Char} {k : Keycode} (h : ofName? text = some k) :
    ∃ n ∈ names, comparisonKey n = keyOf (unescaped text) ∧ n.keycode = k := by
  rw [ofName?_eq] at h
  exact exists_of_ofKey? h

/-- No name has a bracket. -/
theorem ofName?_of_bracket {text : List Char} (h : ')' ∈ text) : ofName? text = none := by
  rw [Option.eq_none_iff_forall_not_mem]
  intro k hk
  obtain ⟨n, hn, hkey, -⟩ := exists_of_ofName? hk
  have hmem := mem_keyOf_unescaped h (by decide) (by decide) (by decide) (by decide)
  rw [← hkey] at hmem
  exact ((compared_of_mem n hn).2.2 _ hmem).1 rfl

/-- No name has the mark of a code in hexadecimal. -/
theorem ofName?_of_hexMark {text : List Char} (hzero : '0' ∈ text) (hx : 'x' ∈ text) :
    ofName? text = none := by
  rw [Option.eq_none_iff_forall_not_mem]
  intro k hk
  obtain ⟨n, hn, hkey, -⟩ := exists_of_ofName? hk
  have hmem := mem_keyOf_unescaped hx (by decide) (by decide) (by decide) (by decide)
  have hmem' := mem_keyOf_unescaped hzero (by decide) (by decide) (by decide) (by decide)
  rw [← hkey] at hmem hmem'
  rw [((compared_of_mem n hn).2.2 _ hmem).2 rfl] at hmem'
  simp at hmem'

/-! ## First names -/

/-- The first name of a key is a listed name of it, and not the dash. -/
theorem exists_of_firstName? {k : Keycode} {name : String} (h : firstName? k = some name) :
    ∃ n ∈ names, n.name = name ∧ n.keycode = k ∧ name ≠ "-" := by
  obtain ⟨n, hfound, hname⟩ := Option.map_eq_some_iff.mp h
  have hn := List.mem_of_find?_eq_some hfound
  have hk : n.keycode = k := by simpa using List.find?_some hfound
  refine ⟨n, hn, hname, hk, ?_⟩
  rintro rfl
  -- The dash is the second name of its key.
  have hdash : n = ⟨"-", 0x2d⟩ :=
    eq_of_comparisonKey hn (by decide +kernel) (by rw [comparisonKey_eq, comparisonKey_eq, hname])
  have hfirst : firstName? 0x2d = some "Dash" := by decide +kernel
  rw [← hk, hdash, hfirst] at h
  exact absurd h (by decide)

theorem firstName?_isSome {n : NamedKey} (hn : n ∈ names) :
    (firstName? n.keycode).isSome = true := by
  rw [firstName?, Option.isSome_map, List.find?_isSome]
  exact ⟨n, hn, beq_self_eq_true _⟩

end LongPress.Keycode
