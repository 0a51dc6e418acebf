import Mathlib.Data.Set.Insert
import LongPress.CodeSet

/-!
# LongPress.Proofs.SetOfCodes

The thirty-two bytes are a set.

Every set of codes is kept by exactly one array of bytes (`bijective_codes`), and putting a code in,
taking one out and asking for one do to the bytes what they do to the set. Of a single call this is
said of its answer (`holds_perform`) and of what it leaves (`codes_perform`); a run of calls follows
by induction (`answered_run`).

The bytes of a code are looked up by a number that comes from the code itself. `perform?` looks them
up in an array of any size and fails where the number is beyond its end. Thirty-two bytes have one
for every code (`perform?_bytes`), so a run never comes to such an end.

* `answers_as_set` — the main statement.
-/

namespace LongPress.CodeSet

/-! ## The set that is kept -/

/-- The codes in a set. -/
def codes (s : CodeSet) : Set UInt8 := {c | s.contains c = true}

theorem mem_codes {s : CodeSet} {c : UInt8} : c ∈ s.codes ↔ s.contains c = true := Iff.rfl

theorem codes_add (s : CodeSet) (c : UInt8) : (s.add c).2.codes = insert c s.codes := by
  ext d
  simp [mem_codes]

theorem codes_remove (s : CodeSet) (c : UInt8) : (s.remove c).2.codes = s.codes \ {c} := by
  ext d
  simp [mem_codes, and_comm]

theorem contains_foldl_put (s : CodeSet) (l : List UInt8) (present : UInt8 → Bool) (d : UInt8) :
    (l.foldl (fun t c => t.put c (present c)) s).contains d =
      if d ∈ l then present d else s.contains d := by
  induction l generalizing s with
  | nil => simp
  | cons c rest ih =>
    rw [List.foldl_cons, ih, contains_put]
    by_cases hd : d = c
    · simp [hd]
    · simp [hd]

/-- Every set of codes is kept by some bytes, and by no others. -/
theorem bijective_codes : Function.Bijective codes := by
  classical
  constructor
  · intro s t h
    apply eq_of_contains
    intro c
    rw [Bool.eq_iff_iff, ← mem_codes, ← mem_codes, h]
  · intro A
    let every : List UInt8 := (List.range 256).map UInt8.ofNat
    refine ⟨every.foldl (fun t c => t.put c (decide (c ∈ A))) ∅, ?_⟩
    ext d
    have hd : d ∈ every :=
      List.mem_map.mpr ⟨d.toNat, List.mem_range.mpr d.toNat_lt, UInt8.ofNat_toNat⟩
    rw [mem_codes, contains_foldl_put, if_pos hd, decide_eq_true_iff]

/-! ## Calls -/

/-- What can be done with a set of codes. -/
inductive Call where
  | add (code : UInt8)
  | remove (code : UInt8)
  | contains (code : UInt8)
  deriving DecidableEq, Repr

namespace Call

/-- The code that a call is about. -/
def code : Call → UInt8
  | add c => c
  | remove c => c
  | contains c => c

/-- What a call means for a set: whether its answer is yes. -/
def Holds (A : Set UInt8) : Call → Prop
  | add c => c ∉ A
  | remove c => c ∈ A
  | contains c => c ∈ A

/-- What a call means for a set: what it leaves of it. -/
def leave (A : Set UInt8) : Call → Set UInt8
  | add c => insert c A
  | remove c => A \ {c}
  | contains _ => A

/-- No other code comes or goes. -/
theorem mem_leave_of_ne {A : Set UInt8} {call : Call} {d : UInt8} (h : d ≠ call.code) :
    d ∈ call.leave A ↔ d ∈ A := by
  cases call with
  | add c => exact ⟨fun hd => hd.resolve_left h, Set.mem_insert_of_mem c⟩
  | remove c => exact ⟨fun hd => hd.1, fun hd => ⟨hd, h⟩⟩
  | contains c => exact Iff.rfl

end Call

/-- The answer of a call and the set after it. -/
def perform (s : CodeSet) : Call → Bool × CodeSet
  | .add c => s.add c
  | .remove c => s.remove c
  | .contains c => (s.contains c, s)

/-- The answers of some calls, one after the other, and the set after them. -/
def run (s : CodeSet) : List Call → List Bool × CodeSet
  | [] => ([], s)
  | call :: rest =>
    let after := (s.perform call).2.run rest
    ((s.perform call).1 :: after.1, after.2)

/-- Answers of calls on a set, and what is left of it. -/
inductive Answered : Set UInt8 → List Call → List Bool → Set UInt8 → Prop where
  | nil (A : Set UInt8) : Answered A [] [] A
  | cons {A B : Set UInt8} {call : Call} {calls : List Call} {answer : Bool} {answers : List Bool}
    (hanswer : answer = true ↔ call.Holds A) (hrest : Answered (call.leave A) calls answers B) :
    Answered A (call :: calls) (answer :: answers) B

/-- A code that no call is about neither comes nor goes. -/
theorem Answered.mem_iff {A B : Set UInt8} {calls : List Call} {answers : List Bool}
    (h : Answered A calls answers B) {d : UInt8} (hd : ∀ call ∈ calls, d ≠ call.code) :
    d ∈ B ↔ d ∈ A := by
  induction h with
  | nil A => exact Iff.rfl
  | cons hanswer hrest ih =>
    obtain ⟨hcall, hcalls⟩ := List.forall_mem_cons.mp hd
    rw [ih hcalls, Call.mem_leave_of_ne hcall]

theorem holds_perform (s : CodeSet) (call : Call) :
    (s.perform call).1 = true ↔ call.Holds s.codes := by
  cases call with
  | add c => simp [perform, Call.Holds, mem_codes]
  | remove c => simp [perform, Call.Holds, mem_codes]
  | contains c => exact Iff.rfl

theorem codes_perform (s : CodeSet) (call : Call) :
    (s.perform call).2.codes = call.leave s.codes := by
  cases call with
  | add c => exact s.codes_add c
  | remove c => exact s.codes_remove c
  | contains c => rfl

theorem answered_run (s : CodeSet) (calls : List Call) :
    Answered s.codes calls (s.run calls).1 (s.run calls).2.codes := by
  induction calls generalizing s with
  | nil => exact .nil _
  | cons call rest ih =>
    refine .cons (s.holds_perform call) ?_
    rw [← codes_perform]
    exact ih _

/-! ## Bytes that may be missing -/

/-- A call on an array of bytes; none if the byte of its code is beyond the end. -/
def perform? (bytes : Array UInt8) (call : Call) : Option (Bool × Array UInt8) :=
  let i := (call.code >>> 3).toNat
  (bytes[i]?).map fun old =>
    match call with
    | .add c => (old &&& mask c == 0, bytes.setIfInBounds i (old ||| mask c))
    | .remove c => (old ||| ~~~mask c == 0xff, bytes.setIfInBounds i (old &&& ~~~mask c))
    | .contains c => (old &&& mask c != 0, bytes)

/-- Calls one after the other; none if one of them comes to a byte that is not there. -/
def run? (bytes : Array UInt8) : List Call → Option (List Bool × Array UInt8)
  | [] => some ([], bytes)
  | call :: rest =>
    (perform? bytes call).bind fun step =>
      (run? step.2 rest).map fun after => (step.1 :: after.1, after.2)

theorem toArray_setByte (s : CodeSet) (c b : UInt8) :
    (s.setByte c b).bytes.toArray = s.bytes.toArray.setIfInBounds (c >>> 3).toNat b := by
  have hplace : (c >>> 3).toNat < s.bytes.toArray.size := by
    rw [Vector.size_toArray]
    exact (place c).isLt
  rw [Array.setIfInBounds_def, dif_pos hplace]
  rfl

/-- No byte is missing among thirty-two. -/
theorem perform?_bytes (s : CodeSet) (call : Call) :
    perform? s.bytes.toArray call =
      some ((s.perform call).1, (s.perform call).2.bytes.toArray) := by
  have hget : s.bytes.toArray[(call.code >>> 3).toNat]? = some (s.byte call.code) := by
    simp [byte, place]
  rw [perform?, hget, Option.map_some]
  cases call with
  | add c => simp only [Call.code, perform, add, toArray_setByte]
  | remove c => simp only [Call.code, perform, remove, toArray_setByte]
  | contains c => rfl

theorem run?_bytes (s : CodeSet) (calls : List Call) :
    run? s.bytes.toArray calls = some ((s.run calls).1, (s.run calls).2.bytes.toArray) := by
  induction calls generalizing s with
  | nil => rfl
  | cons call rest ih =>
    rw [run?, perform?_bytes, Option.bind_some, ih]
    rfl

/-! ## The main statement -/

/-- **Thirty-two bytes are a set of codes.**  Every set of codes is kept by one array of thirty-two
bytes, and by no other.  Whatever calls are made on such an array, one after the other, none of them
comes to a byte that is not there.  Their answers are those of the set: putting a code in says
whether it was absent, taking it out whether it was present, asking for it whether it is there.
What is left is what the calls leave of the set, and only codes that they are about come or go. -/
theorem answers_as_set :
    Function.Bijective codes ∧
      ∀ (s : CodeSet) (calls : List Call), ∃ answers t,
        s.run calls = (answers, t) ∧
          run? s.bytes.toArray calls = some (answers, t.bytes.toArray) ∧
          Answered s.codes calls answers t.codes ∧
          ∀ d, (∀ call ∈ calls, d ≠ call.code) → (d ∈ t.codes ↔ d ∈ s.codes) := by
  refine ⟨bijective_codes, ?_⟩
  intro s calls
  have hanswered := s.answered_run calls
  exact ⟨_, _, rfl, run?_bytes s calls, hanswered, fun d hd => hanswered.mem_iff hd⟩

/-- Codes eight apart have the same bit of two bytes. -/
example : ((∅ : CodeSet).run [.add 8, .contains 0, .add 16, .add 8, .remove 8, .remove 8,
    .contains 16]).1 = [true, false, true, false, true, false, true] := by decide

end LongPress.CodeSet
