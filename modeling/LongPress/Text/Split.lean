/-!
# LongPress.Text.Split

Cutting a list at a separator: at its first occurrence, at its last, or at all of them. The
separator itself is in no part.
-/

namespace LongPress.Text

variable {α : Type} [DecidableEq α]

/-- What stands before and after the first separator. -/
def splitFirst? (sep : α) : List α → Option (List α × List α)
  | [] => none
  | a :: rest =>
    if a = sep then some ([], rest)
    else (splitFirst? sep rest).map fun parts => (a :: parts.1, parts.2)

/-- What stands before and after the last separator. -/
def splitLast? (sep : α) : List α → Option (List α × List α)
  | [] => none
  | a :: rest =>
    match splitLast? sep rest with
    | some parts => some (a :: parts.1, parts.2)
    | none => if a = sep then some ([], rest) else none

/-- All parts between separators; one more than there are separators. -/
def splitAll (sep : α) : List α → List (List α)
  | [] => [[]]
  | a :: rest =>
    if a = sep then [] :: splitAll sep rest
    else
      match splitAll sep rest with
      | [] => [[a]]
      | part :: parts => (a :: part) :: parts

/-! ## What the cuts find -/

/-- Without separators, a list is passed over as a whole when the next one is looked for. -/
theorem decide_ne_of_not_mem {sep : α} {l : List α} (h : sep ∉ l) :
    ∀ a ∈ l, decide (a ≠ sep) = true := by
  intro a ha
  exact decide_eq_true fun e => h (e ▸ ha)

theorem splitFirst?_eq_none_iff {sep : α} {l : List α} : splitFirst? sep l = none ↔ sep ∉ l := by
  induction l with
  | nil => simp [splitFirst?]
  | cons a rest ih =>
    unfold splitFirst?
    split
    · next h => simp [h]
    · next h =>
      simp only [Option.map_eq_none_iff, ih, List.mem_cons, not_or]
      exact ⟨fun hr => ⟨fun e => h e.symm, hr⟩, fun hr => hr.2⟩

/-- The parts and the separator make up the list, and the first part has no separator. -/
theorem eq_append_of_splitFirst? {sep : α} {l : List α} {parts : List α × List α}
    (h : splitFirst? sep l = some parts) : l = parts.1 ++ sep :: parts.2 ∧ sep ∉ parts.1 := by
  induction l generalizing parts with
  | nil => simp [splitFirst?] at h
  | cons a rest ih =>
    unfold splitFirst? at h
    split at h
    · next ha =>
      simp only [Option.some.injEq] at h
      subst h
      simp [ha]
    · next ha =>
      obtain ⟨q, hq, rfl⟩ := Option.map_eq_some_iff.mp h
      obtain ⟨e, hn⟩ := ih hq
      refine ⟨by simp [e], ?_⟩
      simp only [List.mem_cons, not_or]
      exact ⟨fun e => ha e.symm, hn⟩

/-- If the list has a separator, the first part ends where a separator comes. -/
theorem splitFirst?_of_mem {sep : α} {l : List α} (h : sep ∈ l) :
    splitFirst? sep l = some (l.takeWhile (· ≠ sep), (l.dropWhile (· ≠ sep)).tail) := by
  induction l with
  | nil => simp at h
  | cons a rest ih =>
    by_cases ha : a = sep
    · simp [splitFirst?, ha]
    · have hr : sep ∈ rest := by simpa [Ne.symm ha] using h
      simp [splitFirst?, ha, ih hr]

theorem splitFirst?_append {sep : α} {first : List α} (h : sep ∉ first) (rest : List α) :
    splitFirst? sep (first ++ sep :: rest) = some (first, rest) := by
  induction first with
  | nil => simp [splitFirst?]
  | cons a first ih =>
    simp only [List.mem_cons, not_or] at h
    simp [splitFirst?, ih h.2, Ne.symm h.1]

theorem splitLast?_eq_none_iff {sep : α} {l : List α} : splitLast? sep l = none ↔ sep ∉ l := by
  induction l with
  | nil => simp [splitLast?]
  | cons a rest ih =>
    unfold splitLast?
    split
    · next q hq =>
      have : sep ∈ rest := by
        apply Classical.byContradiction
        intro hn
        rw [ih.mpr hn] at hq
        simp at hq
      simp [this]
    · next hq =>
      have hn := ih.mp hq
      by_cases ha : a = sep
      · simp [ha]
      · simp [ha, hn, Ne.symm ha]

theorem splitLast?_append {sep : α} {last : List α} (h : sep ∉ last) (first : List α) :
    splitLast? sep (first ++ sep :: last) = some (first, last) := by
  induction first with
  | nil => simp [splitLast?, splitLast?_eq_none_iff.mpr h]
  | cons a first ih => simp [splitLast?, ih]

theorem splitAll_ne_nil (sep : α) (l : List α) : splitAll sep l ≠ [] := by
  cases l with
  | nil => simp [splitAll]
  | cons a rest =>
    unfold splitAll
    split
    · simp
    · split <;> simp

/-- A list without separators is its only part. -/
theorem splitAll_of_not_mem {sep : α} {l : List α} (h : sep ∉ l) : splitAll sep l = [l] := by
  induction l with
  | nil => rfl
  | cons a rest ih =>
    simp only [List.mem_cons, not_or] at h
    simp [splitAll, ih h.2, Ne.symm h.1]

/-- A separator keeps apart the parts before it and the parts after it. -/
theorem splitAll_append_cons (sep : α) (first rest : List α) :
    splitAll sep (first ++ sep :: rest) = splitAll sep first ++ splitAll sep rest := by
  induction first with
  | nil => simp [splitAll]
  | cons a first ih =>
    rw [List.cons_append, splitAll, splitAll, ih]
    split
    · rfl
    · cases hfirst : splitAll sep first with
      | nil => exact absurd hfirst (splitAll_ne_nil sep first)
      | cons part parts => rfl

theorem splitAll_append {sep : α} {first : List α} (h : sep ∉ first) (rest : List α) :
    splitAll sep (first ++ sep :: rest) = first :: splitAll sep rest := by
  rw [splitAll_append_cons, splitAll_of_not_mem h, List.singleton_append]

/-- A separator at the end adds an empty part. -/
theorem splitAll_concat (sep : α) (l : List α) :
    splitAll sep (l ++ [sep]) = splitAll sep l ++ [[]] :=
  splitAll_append_cons sep l []

/-- The parts with separators between them make up the list. -/
theorem intercalate_splitAll (sep : α) (l : List α) : [sep].intercalate (splitAll sep l) = l := by
  induction l with
  | nil => rfl
  | cons a rest ih =>
    unfold splitAll
    cases hrest : splitAll sep rest with
    | nil => exact absurd hrest (splitAll_ne_nil sep rest)
    | cons part parts =>
      rw [hrest] at ih
      split
      · next ha => rw [ha, List.intercalate_cons_cons, ih, List.nil_append, List.singleton_append]
      · cases parts <;> simp_all [List.intercalate]

end LongPress.Text
