import LongPress.Proofs.Endings
import LongPress.Proofs.Polling

/-!
# LongPress.Proofs.Deadline

`timeLeft` tells exactly when a scan has something to do.

Two limits run at the same time, and each of them counts down with the clock until it is used up
(`timeToDecide_add`, `timeToHandOff_add`); so the shorter one does as well (`timeLeft_add`).  A scan
does what is due, and nothing else: it decides the waiting key when the time to decide is used up
(`decidesByScan`) and hands the tracked key off when the time to hand off is (`handsOffByScan`).

* `timeLeft_exact` — the main statement: until the deadline a scan does nothing, at the deadline it
  does something, and after that nothing is due.
-/

namespace LongPress

/-! ## A limit counts down -/

theorem Tick.since_add (now past : Tick) (d : UInt16) :
    Tick.since (now + d) past = now.since past + d := by
  rw [Tick.since, Tick.since, UInt16.sub_eq_add_neg, UInt16.sub_eq_add_neg, UInt16.add_assoc,
    UInt16.add_comm d, UInt16.add_assoc]

namespace Shifter

variable {p : Policy} {s : Shifter} {now : Tick} {d left : UInt16}

/-- What is left of a limit gets shorter by the time that goes by, as long as there is that much
left. -/
theorem left_add {limit passed : UInt16}
    (hd : d ≤ UInt16.ofNat (limit.toNat - passed.toNat)) :
    UInt16.ofNat (limit.toNat - (passed + d).toNat) =
      UInt16.ofNat (limit.toNat - passed.toNat) - d := by
  have hlimit := limit.toNat_lt
  have hpassed := passed.toNat_lt
  have hleft : d.toNat ≤ (UInt16.ofNat (limit.toNat - passed.toNat)).toNat := hd
  rw [UInt16.toNat_ofNat', Nat.mod_eq_of_lt (by omega)] at hleft
  apply UInt16.toNat_inj.mp
  rw [UInt16.toNat_sub_of_le _ _ hd, UInt16.toNat_ofNat', UInt16.toNat_ofNat', UInt16.toNat_add]
  omega

theorem timeToDecide_add (h : s.timeToDecide now = some left) (hd : d ≤ left) :
    s.timeToDecide (now + d) = some (left - d) := by
  unfold timeToDecide at h ⊢
  obtain ⟨press, hw, rfl⟩ := Option.map_eq_some_iff.mp h
  rw [hw, Option.map_some, Tick.since_add, left_add hd]

theorem timeToHandOff_add (h : s.timeToHandOff now = some left) (hd : d ≤ left) :
    s.timeToHandOff (now + d) = some (left - d) := by
  unfold timeToHandOff at h ⊢
  split at h
  · cases h
  · next hon =>
    obtain ⟨press, ht, rfl⟩ := Option.map_eq_some_iff.mp h
    rw [if_neg hon, ht, Option.map_some, Tick.since_add, left_add hd]

/-- Whether anything runs does not depend on the time. -/
theorem timeToDecide_eq_none_iff : s.timeToDecide now = none ↔ s.waiting = none :=
  Option.map_eq_none_iff

theorem timeToHandOff_eq_none_iff :
    s.timeToHandOff now = none ↔ s.settings.trackingTime = 0 ∨ s.tracked = none := by
  unfold timeToHandOff
  split
  · next hoff => simp [hoff]
  · next hon => simp [hon]

theorem timeLeft_eq_none_iff :
    s.timeLeft now = none ↔
      s.waiting = none ∧ (s.settings.trackingTime = 0 ∨ s.tracked = none) := by
  have hdecide : s.timeToDecide now = none ↔ s.waiting = none := timeToDecide_eq_none_iff
  have hoff : s.timeToHandOff now = none ↔ s.settings.trackingTime = 0 ∨ s.tracked = none :=
    timeToHandOff_eq_none_iff
  rw [← hdecide, ← hoff]
  unfold timeLeft
  cases s.timeToDecide now <;> cases s.timeToHandOff now <;> simp

/-- Of two limits the same one stays the shorter. -/
theorem sub_le_sub_iff {a b : UInt16} (ha : d ≤ a) (hb : d ≤ b) : a - d ≤ b - d ↔ a ≤ b := by
  have hda : d.toNat ≤ a.toNat := ha
  have hdb : d.toNat ≤ b.toNat := hb
  rw [UInt16.le_iff_toNat_le, UInt16.le_iff_toNat_le, UInt16.toNat_sub_of_le _ _ ha,
    UInt16.toNat_sub_of_le _ _ hb]
  omega

/-- The shorter of the two limits counts down like each of them. -/
theorem timeLeft_add (h : s.timeLeft now = some left) (hd : d ≤ left) :
    s.timeLeft (now + d) = some (left - d) := by
  unfold timeLeft at h
  cases hdecide : s.timeToDecide now with
  | none =>
    cases hoff : s.timeToHandOff now with
    | none => simp [hdecide, hoff] at h
    | some b =>
      obtain rfl : b = left := by simpa [hdecide, hoff] using h
      rw [timeLeft, timeToDecide_eq_none_iff.mpr (timeToDecide_eq_none_iff.mp hdecide),
        timeToHandOff_add hoff hd]
  | some a =>
    cases hoff : s.timeToHandOff now with
    | none =>
      obtain rfl : a = left := by simpa [hdecide, hoff] using h
      rw [timeLeft, timeToDecide_add hdecide hd,
        timeToHandOff_eq_none_iff.mpr (timeToHandOff_eq_none_iff.mp hoff)]
    | some b =>
      obtain rfl : (if a ≤ b then a else b) = left := by simpa [hdecide, hoff] using h
      have hdab : d ≤ a ∧ d ≤ b := by
        split at hd
        · next hab => exact ⟨hd, UInt16.le_trans hd hab⟩
        · next hab => exact ⟨UInt16.le_trans hd (UInt16.le_of_lt (UInt16.not_le.mp hab)), hd⟩
      rw [timeLeft, timeToDecide_add hdecide hdab.1, timeToHandOff_add hoff hdab.2]
      simp only [sub_le_sub_iff hdab.1 hdab.2]
      split <;> rfl

/-! ## What a scan does -/

/-- A scan decides the waiting key. The key is typed shifted, and nothing else goes down. -/
def DecidesByScan (p : Policy) (now : Tick) (s : Shifter) : Prop :=
  ∃ press, s.waiting = some press ∧ (s.scan p now).waiting = none ∧
    downs (s.reported p (.scan now)) = [p.stroke press.keycode true]

/-- A scan hands the tracked key off. -/
def HandsOffByScan (p : Policy) (now : Tick) (s : Shifter) : Prop :=
  ∃ press, s.tracked = some press ∧ (s.scan p now).tracked = none ∧
    handOffs (s.reported p (.scan now)) = [(press.keycode, press.switch)]

theorem timeToDecide_eq_zero_iff :
    s.timeToDecide now = some 0 ↔
      ∃ press, s.waiting = some press ∧ s.timeout ≤ now.since press.time := by
  unfold timeToDecide
  cases s.waiting with
  | none => simp
  | some press =>
    by_cases hle : s.timeout ≤ now.since press.time
    · have hpassed : s.timeout.toNat ≤ (now.since press.time).toNat := hle
      simp [hle, Nat.sub_eq_zero_of_le hpassed]
    · simp [hle, toNat_timeLeft_pos hle]

/-- The waiting key is decided exactly if its time is up. -/
theorem decidesByScan_iff : s.DecidesByScan p now ↔ s.timeToDecide now = some 0 := by
  rw [timeToDecide_eq_zero_iff]
  constructor
  · rintro ⟨press, hw, -, hdowns⟩
    refine ⟨press, hw, ?_⟩
    apply Classical.byContradiction
    intro hle
    have hsends : s.scanSends now = [] := by simp [scanSends, hw, hle]
    rw [downs_reported, sends, hsends] at hdowns
    cases hdowns
  · rintro ⟨press, hw, hle⟩
    have hscan : s.scanWaiting p now = s.decideKey p press now true := by
      simp [scanWaiting, hw, hle]
    have hsends : s.scanSends now = [.key press.keycode true] := by
      simp [scanSends, hw, hle, formAt]
    refine ⟨press, hw, ?_, ?_⟩
    · rw [scan, (agrees_scanTracked now _).waiting, hscan]
      exact (agrees_decideKey p press now true s).waiting
    · rw [downs_reported, sends, hsends]
      rfl

/-- The tracked key is handed off exactly if its time is up. -/
theorem handsOffByScan_iff : s.HandsOffByScan p now ↔ s.timeToHandOff now = some 0 := by
  rw [timeToHandOff_eq_zero_iff]
  constructor
  · rintro ⟨press, ht, -, hoff⟩
    have hmem : .handOff press.keycode press.switch ∈ s.reported p (.scan now) := by
      rw [← mem_handOffs_iff, hoff]
      exact List.mem_singleton_self _
    obtain ⟨_, press', hop, ht', -, -, hlimit⟩ := handOff_mem_reported_iff.mp hmem
    cases hop
    exact ⟨press', ht', isOverdue_iff.mpr hlimit⟩
  · rintro ⟨press, ht, hover⟩
    have hdue : s.tracked.filter (s.isOverdue now) = some press := by
      rw [ht, Option.filter_some, if_pos hover]
    refine ⟨press, ht, ?_, ?_⟩
    · rw [scan_eq_match, hdue]
      rfl
    · rw [handOffs_reported, milestones, scanEnds, hdue]
      rfl

/-! ## The deadline -/

/-- A limit is used up at the deadline exactly if it is the one that the deadline comes from. -/
theorem timeToDecide_deadline_iff (h : s.timeLeft now = some left) :
    s.timeToDecide (now + left) = some 0 ↔ s.timeToDecide now = some left := by
  cases hdecide : s.timeToDecide now with
  | none => simp [timeToDecide_eq_none_iff.mpr (timeToDecide_eq_none_iff.mp hdecide)]
  | some a =>
    obtain ⟨m, hm, hle⟩ := timeLeft_le_timeToDecide hdecide
    obtain rfl : left = m := Option.some.inj (h.symm.trans hm)
    rw [timeToDecide_add hdecide hle, Option.some.injEq, Option.some.injEq,
      UInt16.sub_eq_iff_eq_add, UInt16.zero_add]

theorem timeToHandOff_deadline_iff (h : s.timeLeft now = some left) :
    s.timeToHandOff (now + left) = some 0 ↔ s.timeToHandOff now = some left := by
  cases hoff : s.timeToHandOff now with
  | none => simp [timeToHandOff_eq_none_iff.mpr (timeToHandOff_eq_none_iff.mp hoff)]
  | some b =>
    obtain ⟨m, hm, hle⟩ := timeLeft_le_timeToHandOff hoff
    obtain rfl : left = m := Option.some.inj (h.symm.trans hm)
    rw [timeToHandOff_add hoff hle, Option.some.injEq, Option.some.injEq,
      UInt16.sub_eq_iff_eq_add, UInt16.zero_add]

/-- **The time left is the exact deadline of a scan.**  If there is none, no scan ever does
anything.  Otherwise a scan does nothing before the deadline, whatever the wrapping clock shows. At
the deadline it decides the waiting key, hands the tracked key off, or both: each exactly if that is
what the deadline comes from.  Then nothing more is due, so a second scan does nothing. -/
theorem timeLeft_exact (p : Policy) (s : Shifter) (now : Tick) :
    (s.timeLeft now = none → ∀ t, s.scan p t = s) ∧
      ∀ left, s.timeLeft now = some left →
        (∀ d < left, s.scan p (now + d) = s) ∧
        (s.DecidesByScan p (now + left) ∨ s.HandsOffByScan p (now + left)) ∧
        (s.DecidesByScan p (now + left) ↔ s.timeToDecide now = some left) ∧
        (s.HandsOffByScan p (now + left) ↔ s.timeToHandOff now = some left) ∧
        (∀ more, (s.scan p (now + left)).timeLeft (now + left) = some more → 0 < more) ∧
        (s.scan p (now + left)).scan p (now + left) = s.scan p (now + left) := by
  refine ⟨?_, ?_⟩
  · intro hnone t
    have ht : s.timeLeft t = none := timeLeft_eq_none_iff.mpr (timeLeft_eq_none_iff.mp hnone)
    exact scan_of_timeLeft_ne_zero (by simp [ht])
  · intro left hleft
    have hafter := timeLeft_scan_ne_zero p s (now + left)
    refine ⟨?_, ?_, ?_, ?_, ?_, scan_of_timeLeft_ne_zero hafter⟩
    · intro d hd
      apply scan_of_timeLeft_ne_zero
      rw [timeLeft_add hleft (UInt16.le_of_lt hd), ne_eq, Option.some.injEq,
        UInt16.sub_eq_iff_eq_add, UInt16.zero_add]
      exact (UInt16.ne_of_lt hd).symm
    · rw [decidesByScan_iff, handsOffByScan_iff, ← timeLeft_eq_zero_iff,
        timeLeft_add hleft (UInt16.le_refl _), UInt16.sub_self]
    · rw [decidesByScan_iff, timeToDecide_deadline_iff hleft]
    · rw [handsOffByScan_iff, timeToHandOff_deadline_iff hleft]
    · intro more hmore
      apply UInt16.pos_iff_ne_zero.mpr
      rintro rfl
      exact hafter hmore

/-- A key that waits and a key that is tracked, shortly before the clock wraps. -/
def beforeWrap : Shifter where
  waiting := some (.press 4 0 0 65500)
  tracked := some (.press (Keycode.modTap 1 5) 0 1 65400)

/-- The clock wraps before the key is decided. The tracked key stays tracked for another 225 ms. -/
theorem timeLeft_exact_of_beforeWrap :
    beforeWrap.timeLeft 65530 = some 145 ∧
      (∀ d < 145, beforeWrap.scan .stock (65530 + d) = beforeWrap) ∧
      beforeWrap.DecidesByScan .stock 139 ∧ ¬ beforeWrap.HandsOffByScan .stock 139 ∧
      (beforeWrap.scan .stock 139).timeLeft 139 = some 225 := by
  have hleft : beforeWrap.timeLeft 65530 = some 145 := by decide
  obtain ⟨hbefore, -, hdecides, hhandsOff, -⟩ :=
    (timeLeft_exact .stock beforeWrap 65530).2 145 hleft
  refine ⟨hleft, hbefore, hdecides.mpr (by decide), ?_, by decide +kernel⟩
  intro hoff
  exact absurd (hhandsOff.mp hoff) (by decide)

end Shifter

end LongPress
