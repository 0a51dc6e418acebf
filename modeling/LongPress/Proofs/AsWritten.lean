import LongPress.Proofs.Assignments
import LongPress.Proofs.Transfer

/-!
# LongPress.Proofs.AsWritten

The keyboard runs what its settings file says.

Ten of the settings are bits of one word, so an assignment changes a word that other settings share.
All that is ever needed of this is that a setting which is put into its word has its value there
(`valueOf_apply_self`), and that every other setting keeps its own (`valueOf_apply_of_apart`).

`Follows` is the invariant of the reader: each setting has the value that its last assignment
writes, or the one to begin with. No bit is ever on that is no switch, so these values fix all words
(`eq_of_valueOf`), in whatever order they were written.

* `runs_as_written` — the main statement.
-/

namespace LongPress

/-! ## Bits of switches -/

namespace Flag

/-- Whether a bit of a word is set. -/
def bit (word : UInt16) (i : Nat) : Bool := word.toBitVec.getLsbD i

@[simp] theorem bit_or (a b : UInt16) (i : Nat) : bit (a ||| b) i = (bit a i || bit b i) := by
  rw [bit, UInt16.toBitVec_or, BitVec.getLsbD_or]
  rfl

@[simp] theorem bit_and (a b : UInt16) (i : Nat) : bit (a &&& b) i = (bit a i && bit b i) := by
  rw [bit, UInt16.toBitVec_and, BitVec.getLsbD_and]
  rfl

@[simp] theorem bit_not (a : UInt16) {i : Nat} (hi : i < 16) : bit (~~~a) i = !bit a i := by
  rw [bit, UInt16.toBitVec_not, BitVec.getLsbD_not]
  simp [hi, bit]

@[simp] theorem bit_zero (i : Nat) : bit 0 i = false := BitVec.getLsbD_zero

theorem eq_of_bit {a b : UInt16} (h : ∀ i < 16, bit a i = bit b i) : a = b :=
  UInt16.toBitVec_inj.mp (BitVec.eq_of_getLsbD_eq fun i hi => h i hi)

theorem or_and_self (word mask : UInt16) : (word ||| mask) &&& mask = mask :=
  eq_of_bit fun i _ => by simp +contextual

theorem and_not_and_self (word mask : UInt16) : word &&& ~~~mask &&& mask = 0 :=
  eq_of_bit fun i hi => by simp [hi]

theorem and_or_distrib (word m n : UInt16) : word &&& (m ||| n) = word &&& m ||| word &&& n :=
  eq_of_bit fun i _ => by simp [Bool.and_or_distrib_left]

/-- What two words share with each of some masks, they share with all of them. -/
theorem and_foldl_or {a b : UInt16} {masks : List UInt16} (h : ∀ m ∈ masks, a &&& m = b &&& m)
    {start : UInt16} (hstart : a &&& start = b &&& start) :
    a &&& masks.foldl (· ||| ·) start = b &&& masks.foldl (· ||| ·) start := by
  induction masks generalizing start with
  | nil => exact hstart
  | cons m masks ih =>
    obtain ⟨hm, hmasks⟩ := List.forall_mem_cons.mp h
    exact ih hmasks (by rw [and_or_distrib, and_or_distrib, hstart, hm])

/-- A mask of one bit. -/
def IsSingle (mask : UInt16) : Prop :=
  ∃ i ∈ List.range 16, ∀ j ∈ List.range 16, bit mask j = decide (j = i)

instance (mask : UInt16) : Decidable (IsSingle mask) := by
  unfold IsSingle
  exact inferInstance

/-- A single bit is on or off. -/
theorem IsSingle.and_eq {mask : UInt16} (h : IsSingle mask) (word : UInt16) :
    word &&& mask = mask ∨ word &&& mask = 0 := by
  obtain ⟨i, -, hi⟩ := h
  have hand : ∀ j < 16, bit (word &&& mask) j = (bit word i && bit mask j) := by
    intro j hj
    rw [bit_and, hi j (List.mem_range.mpr hj)]
    by_cases he : j = i <;> simp [he]
  cases hw : bit word i with
  | true => exact .inl (eq_of_bit fun j hj => by rw [hand j hj, hw, Bool.true_and])
  | false => exact .inr (eq_of_bit fun j hj => by rw [hand j hj, hw, Bool.false_and, bit_zero])

section

variable {m n : UInt16}

theorem not_bit_of_apart (h : m &&& n = 0) {i : Nat} (hm : bit m i = true) : bit n i = false := by
  have hi : bit (m &&& n) i = false := by rw [h, bit_zero]
  simpa [hm] using hi

/-- Bits that are turned on leave the others as they are. -/
theorem or_and_of_apart (h : m &&& n = 0) (word : UInt16) : (word ||| n) &&& m = word &&& m := by
  apply eq_of_bit
  intro i _
  cases hm : bit m i with
  | false => simp [hm]
  | true => simp [hm, not_bit_of_apart h hm]

/-- So do bits that are turned off. -/
theorem and_not_and_of_apart (h : m &&& n = 0) (word : UInt16) :
    word &&& ~~~n &&& m = word &&& m := by
  apply eq_of_bit
  intro i hi
  cases hm : bit m i with
  | false => simp [hm]
  | true => simp [hm, hi, not_bit_of_apart h hm]

end

end Flag

/-! ## Settings in their words -/

theorem Config.set?_eq {p : Property} {slot : Slot} (h : p.index = slot.index) (c : Config) :
    c.set? p = some (c.setSlot slot (p.update (slot.get c.values))) := by
  simp [Config.set?, h]

namespace Settings

/-- The value of a setting: the word of a duration, or whether the bits of a switch are on. -/
def valueOf (s : Settings) (p : Property) : Property.Value :=
  match p.mask? with
  | none => .duration (s.get p.index).toNat
  | some mask => .switch (s.has mask)

end Settings

namespace Property

/-- The setting has a place: a duration one of the first four words, a switch some bits of the last
one. -/
def Placed (p : Property) : Prop :=
  match p.mask? with
  | none => p.index.toNat < 4
  | some mask => p.index = Slot.switches.index ∧ mask ≠ 0

instance (p : Property) : Decidable p.Placed := by
  unfold Placed
  cases p.mask? <;> exact inferInstance

/-- The masks of all switches. -/
def switchMasks : List UInt16 := all.filterMap (·.2.mask?)

/-- The bits of all switches. -/
def switchBits : UInt16 := switchMasks.foldl (· ||| ·) 0

/-- Two settings share neither a word nor a bit. -/
def Apart (p q : Property) : Prop :=
  match p.mask?, q.mask? with
  | none, none => p.index ≠ q.index
  | some m, some n => m &&& n = 0
  | _, _ => True

instance (p q : Property) : Decidable (p.Apart q) := by
  unfold Apart
  cases p.mask? <;> cases q.mask? <;> exact inferInstance

theorem placed_of_mem : ∀ entry ∈ all, entry.2.Placed := by decide

/-- Different settings have different places. -/
theorem apart_of_mem : ∀ entry ∈ all, ∀ other ∈ all, entry.1 ≠ other.1 → entry.2.Apart other.2 := by
  decide

theorem eq_of_mem : ∀ entry ∈ all, ∀ other ∈ all, entry.1 = other.1 → entry = other := by decide

theorem isSingle_of_mem {mask : UInt16} (h : mask ∈ switchMasks) : Flag.IsSingle mask := by
  have hall : switchMasks.all (fun m => decide (Flag.IsSingle m)) = true := by decide
  exact of_decide_eq_true (List.all_eq_true.mp hall mask h)

theorem and_switchBits_of_mem {mask : UInt16} (h : mask ∈ switchMasks) :
    mask &&& switchBits = mask := by
  have hall : switchMasks.all (fun m => m &&& switchBits == m) = true := by decide
  exact eq_of_beq (List.all_eq_true.mp hall mask h)

variable {p q : Property}

theorem Placed.of_assign {text : String} (h : p.Placed) (hq : p.assign text = .ok q) :
    q.Placed := by
  unfold Placed
  rw [mask?_of_assign hq, index_of_assign hq]
  exact h

theorem Apart.of_assign {r : Property} {text : String} (h : r.Apart p)
    (hq : p.assign text = .ok q) : r.Apart q := by
  unfold Apart
  rw [mask?_of_assign hq, index_of_assign hq]
  exact h

theorem valueOf_of_assign {s : Settings} {text : String} (hq : p.assign text = .ok q) :
    s.valueOf q = s.valueOf p := by
  unfold Settings.valueOf
  rw [mask?_of_assign hq, index_of_assign hq]

theorem Placed.exists_slot (h : p.Placed) : ∃ slot : Slot, p.index = slot.index := by
  have hlt : p.index.toNat < 5 := by
    unfold Placed at h
    split at h
    · omega
    · rw [h.1]
      decide
  exact ⟨⟨p.index.toNat, hlt⟩, UInt16.ofNat_toNat.symm⟩

/-- A setting changes the word that it is in and no other. -/
theorem get_apply {slot : Slot} (h : p.index = slot.index) (t : Table) (s : Slot) :
    s.get (p.apply t) = if slot = s then p.update (slot.get t) else s.get t := by
  rw [← Config.values_of_set? (Config.set?_eq h { values := t })]
  exact Slot.get_set slot s t _

/-- A setting that is put into its word has its value there. -/
theorem valueOf_apply_self (h : p.Placed) (t : Table) :
    (Settings.mk (p.apply t)).valueOf p = p.value := by
  cases hk : p.kind with
  | duration value least most =>
    obtain ⟨slot, hslot⟩ := h.exists_slot
    simp [Settings.valueOf, Settings.get, mask?, Property.value, update, get_apply hslot, hslot, hk]
  | switch mask on =>
    obtain ⟨hslot, hmask⟩ : p.index = Slot.switches.index ∧ mask ≠ 0 := by
      simpa [Placed, mask?, hk] using h
    cases on with
    | true =>
      simp [Settings.valueOf, Settings.has, Settings.switches, mask?, Property.value, update,
        get_apply hslot, hk, Flag.or_and_self]
    | false =>
      simp [Settings.valueOf, Settings.has, Settings.switches, mask?, Property.value, update,
        get_apply hslot, hk, Flag.and_not_and_self, Ne.symm hmask]

/-- Only switches are in the word of the switches. -/
theorem Placed.index_eq_iff (h : p.Placed) :
    p.index = Slot.switches.index ↔ p.mask? ≠ none := by
  unfold Placed at h
  split at h
  · next hm =>
    have hne : p.index ≠ Slot.switches.index := by
      intro he
      rw [he] at h
      exact absurd h (by decide)
    simp [hm, hne]
  · next hm => simp [hm, h.1]

theorem Placed.index_ne (hp : p.Placed) (hq : q.Placed) (hm : p.mask? = none) (h : p.Apart q) :
    p.index ≠ q.index := by
  cases hn : q.mask? with
  | none => simpa [Apart, hm, hn] using h
  | some n =>
    rw [hq.index_eq_iff.mpr (by simp [hn])]
    exact fun he => hp.index_eq_iff.mp he hm

/-- A switch turns its bits on or off. -/
theorem update_of_mask? {mask : UInt16} (h : p.mask? = some mask) (word : UInt16) :
    p.update word = word ||| mask ∨ p.update word = word &&& ~~~mask := by
  cases hk : p.kind with
  | duration value least most => simp [mask?, hk] at h
  | switch m on =>
    obtain rfl : m = mask := by simpa [mask?, hk] using h
    cases on with
    | true => exact .inl (by simp [update, hk])
    | false => exact .inr (by simp [update, hk])

theorem update_and_of_apart {m n : UInt16} (hn : p.mask? = some n) (h : m &&& n = 0)
    (word : UInt16) : p.update word &&& m = word &&& m := by
  rcases update_of_mask? hn word with hup | hup
  · rw [hup, Flag.or_and_of_apart h]
  · rw [hup, Flag.and_not_and_of_apart h]

/-- No bit is turned on that is no switch. -/
theorem update_and_switchBits {mask word : UInt16} (hm : p.mask? = some mask)
    (hmem : mask ∈ switchMasks) (hword : word &&& switchBits = word) :
    p.update word &&& switchBits = p.update word := by
  rcases update_of_mask? hm word with hup | hup
  · rw [hup, UInt16.and_comm, Flag.and_or_distrib, UInt16.and_comm _ word, UInt16.and_comm _ mask,
      hword, and_switchBits_of_mem hmem]
  · rw [hup, UInt16.and_assoc, UInt16.and_comm (~~~mask), ← UInt16.and_assoc, hword]

/-- No setting apart from it changes. -/
theorem valueOf_apply_of_apart (hp : p.Placed) (hq : q.Placed) (h : p.Apart q) (t : Table) :
    (Settings.mk (q.apply t)).valueOf p = (Settings.mk t).valueOf p := by
  obtain ⟨slot, hslot⟩ := hq.exists_slot
  cases hm : p.mask? with
  | none =>
    obtain ⟨place, hplace⟩ := hp.exists_slot
    have hne : slot ≠ place := by
      rintro rfl
      exact hp.index_ne hq hm h (hplace.trans hslot.symm)
    simp [Settings.valueOf, Settings.get, hm, hplace, get_apply hslot, hne]
  | some m =>
    have hword : Slot.switches.get (q.apply t) &&& m = Slot.switches.get t &&& m := by
      rw [get_apply hslot]
      split
      · next hs =>
        obtain ⟨n, hn⟩ := Option.ne_none_iff_exists'.mp (hq.index_eq_iff.mp (hs ▸ hslot))
        rw [update_and_of_apart hn (by simpa [Apart, hm, hn] using h), hs]
      · rfl
    simp [Settings.valueOf, Settings.has, Settings.switches, hm, hword]

end Property

/-! ## Values fix the words -/

namespace Settings

/-- No bit is on in the last word that is no switch. -/
def OnlySwitches (s : Settings) : Prop := s.switches &&& Property.switchBits = s.switches

/-- Every word but the last is a duration. -/
theorem exists_duration : ∀ slot : Slot, slot = Slot.switches ∨
    ∃ entry ∈ Property.all, entry.2.mask? = none ∧ entry.2.index = slot.index := by decide

variable {s t : Settings}

theorem OnlySwitches.apply {q : Property} {table : Table}
    (h : (Settings.mk table).OnlySwitches) (hq : q.Placed)
    (hbits : ∀ mask, q.mask? = some mask → mask ∈ Property.switchMasks) :
    (Settings.mk (q.apply table)).OnlySwitches := by
  obtain ⟨slot, hslot⟩ := hq.exists_slot
  unfold OnlySwitches switches at h ⊢
  rw [Property.get_apply hslot]
  split
  · next hs =>
    subst hs
    obtain ⟨mask, hm⟩ := Option.ne_none_iff_exists'.mp (hq.index_eq_iff.mp hslot)
    exact Property.update_and_switchBits hm (hbits mask hm) h
  · exact h

theorem and_mask_of_valueOf {p : Property} {mask : UInt16} (hm : p.mask? = some mask)
    (hsingle : Flag.IsSingle mask) (h : s.valueOf p = t.valueOf p) :
    s.switches &&& mask = t.switches &&& mask := by
  have hhas : s.has mask = t.has mask := by simpa [valueOf, hm] using h
  unfold has at hhas
  rcases hsingle.and_eq s.switches with ha | ha <;>
    rcases hsingle.and_eq t.switches with hb | hb <;> simp_all

/-- Two keyboards on which every setting has the same value have the same words. -/
theorem eq_of_valueOf (hs : s.OnlySwitches) (ht : t.OnlySwitches)
    (h : ∀ entry ∈ Property.all, s.valueOf entry.2 = t.valueOf entry.2) : s = t := by
  have hswitches : s.switches = t.switches := by
    rw [← hs, ← ht]
    refine Flag.and_foldl_or ?_ (by simp)
    intro mask hmask
    obtain ⟨entry, hentry, hm⟩ := List.mem_filterMap.mp hmask
    exact and_mask_of_valueOf hm (Property.isSingle_of_mem hmask) (h entry hentry)
  have htable : s.table = t.table := by
    apply Slot.eq_of_get
    intro slot
    rcases exists_duration slot with rfl | ⟨entry, hentry, hm, hindex⟩
    · exact hswitches
    · have hget := h entry hentry
      simpa [valueOf, hm, get, hindex, UInt16.toNat_inj] using hget
  cases s
  cases t
  exact congrArg Settings.mk htable

end Settings

/-! ## Reading a file -/

namespace Config

/-- The words of a configuration as a keyboard has them. -/
def toSettings (c : Config) : Settings := { table := c.values }

/-- Each setting has the value that the assignments ask of it, and no word anything else. -/
structure Follows (c : Config) (written : List Assignment) : Prop where
  /-- The value is the last one written, or the one to begin with. -/
  value : ∀ entry ∈ Property.all,
    some (c.toSettings.valueOf entry.2) = Property.due? entry.1 entry.2 written
  onlySwitches : c.toSettings.OnlySwitches
  /-- The image leaves out no word that differs from the keyboard's own. -/
  keepsInitial : c.KeepsInitial

theorem follows_nil : Follows {} [] where
  value := by decide
  onlySwitches := by
    unfold Settings.OnlySwitches
    decide
  keepsInitial := keepsInitial_default

variable {c : Config} {written : List Assignment} {p q : Property}

theorem toSettings_set (hq : q.Placed) (c : Config) :
    (c.set q).toSettings = { table := q.apply c.values } := by
  obtain ⟨slot, hslot⟩ := hq.exists_slot
  unfold toSettings set
  rw [← values_of_set? (set?_eq hslot c), set?_eq hslot, Option.getD_some]

theorem Follows.set (h : c.Follows written) {a : Assignment}
    (hp : Property.named? a.name = some p) (hq : p.assign a.value = .ok q) :
    (c.set q).Follows (written ++ [a]) := by
  have hmem := Property.mem_all_of_named? hp
  have hplaced : q.Placed := (Property.placed_of_mem _ hmem).of_assign hq
  refine ⟨?_, ?_, h.keepsInitial.set q⟩
  · intro entry hentry
    rw [toSettings_set hplaced, Property.due?_concat]
    split
    · next hname =>
      obtain rfl : (a.setting, p) = entry := Property.eq_of_mem _ hmem _ hentry hname
      rw [Property.written?_of_assign hq, ← Property.valueOf_of_assign hq,
        Property.valueOf_apply_self hplaced]
    · next hname =>
      have hapart : entry.2.Apart q :=
        (Property.apart_of_mem _ hentry _ hmem (Ne.symm hname)).of_assign hq
      rw [Property.valueOf_apply_of_apart (Property.placed_of_mem _ hentry) hplaced hapart]
      exact h.value entry hentry
  · rw [toSettings_set hplaced]
    refine h.onlySwitches.apply hplaced ?_
    rw [Property.mask?_of_assign hq]
    exact fun mask hm => List.mem_filterMap.mpr ⟨_, hmem, hm⟩

/-- Lines that are read are followed. -/
theorem follows_of_readLines {r r' : Reading} {lines : List Fragment}
    (h : r.config.Follows written) (hr : r.readLines lines = .ok r') :
    r'.config.Follows (written ++ (lines.map (·.text)).filterMap Assignment.ofLine?) := by
  induction lines generalizing r written with
  | nil =>
    simp only [Reading.readLines, Except.ok.injEq] at hr
    simpa [← hr] using h
  | cons line rest ih =>
    unfold Reading.readLines at hr
    split at hr
    · next next hnext =>
      rcases Reading.config_of_readLine hnext with ⟨hnone, hc⟩ | ⟨a, p, q, ha, hp, hq, hc⟩
      · have hrest := ih (hc ▸ h) hr
        simpa [hnone] using hrest
      · have hrest := ih (hc ▸ h.set hp hq) hr
        simpa [ha] using hrest
    · simp at hr

/-- A settings file that is accepted is followed. -/
theorem follows_of_compile {source : String} (h : compile source = .ok c) :
    c.Follows (Assignment.inSource source) := by
  obtain ⟨r, hr, rfl⟩ := exists_readLines_of_compile h
  have hfollows := follows_of_readLines follows_nil hr
  unfold Fragment.lines at hfollows
  rwa [Fragment.map_text_linesFrom] at hfollows

end Config

/-! ## What is asked -/

namespace Property

/-- Two lists of assignments ask the same value of every setting. -/
def SameDue (written other : List Assignment) : Prop :=
  ∀ entry ∈ all, due? entry.1 entry.2 written = due? entry.1 entry.2 other

/-- The order of assignments of different settings does not matter. -/
theorem sameDue_swap {a b : Assignment} (h : a.setting ≠ b.setting)
    (before after : List Assignment) :
    SameDue (before ++ b :: a :: after) (before ++ a :: b :: after) := by
  intro entry _
  unfold due?
  rw [Assignment.lastText?_swap h]

end Property

namespace Config

/-- Configurations that follow the same values have the same words. -/
theorem toSettings_eq_of_sameDue {c d : Config} {written other : List Assignment}
    (hc : c.Follows written) (hd : d.Follows other) (h : Property.SameDue other written) :
    d.toSettings = c.toSettings := by
  refine Settings.eq_of_valueOf hd.onlySwitches hc.onlySwitches ?_
  intro entry hentry
  apply Option.some.inj
  rw [hd.value entry hentry, hc.value entry hentry, h entry hentry]

end Config

/-! ## The main statement -/

namespace Settings

/-- A keyboard that is sent what a settings file says takes it. Whatever the keyboard had before,
each setting then has the value that the last line of the file assigning it writes, or the one to
begin with. Two files of which this asks the same values leave any two keyboards with the same
settings, and so do two files that differ in the order of two lines assigning different settings. -/
theorem runs_as_written {source : String} {c : Config} (h : compile source = .ok c)
    (old : Settings) :
    Image.ofBytes (Image.toBytes c.encode) = .ok c.encode ∧
      (old.load c.encode).1 = .ok () ∧
      (∀ entry ∈ Property.all, some ((old.load c.encode).2.valueOf entry.2) =
        Property.due? entry.1 entry.2 (Assignment.inSource source)) ∧
      (∀ (other : String) (d : Config) (older : Settings), compile other = .ok d →
        Property.SameDue (Assignment.inSource other) (Assignment.inSource source) →
        older.load d.encode = old.load c.encode) ∧
      ∀ (other : String) (d : Config) (older : Settings), compile other = .ok d →
        ∀ before a b after, a.setting ≠ b.setting →
          Assignment.inSource source = before ++ a :: b :: after →
          Assignment.inSource other = before ++ b :: a :: after →
          older.load d.encode = old.load c.encode := by
  have hc := Config.follows_of_compile h
  have hsame : ∀ (other : String) (d : Config) (older : Settings), compile other = .ok d →
      Property.SameDue (Assignment.inSource other) (Assignment.inSource source) →
      older.load d.encode = old.load c.encode := by
    intro other d older hother hdue
    have hd := Config.follows_of_compile hother
    rw [Config.load_encode hd.keepsInitial, Config.load_encode hc.keepsInitial]
    exact congrArg _ (Config.toSettings_eq_of_sameDue hc hd hdue)
  refine ⟨Image.ofBytes_toBytes _, ?_, ?_, hsame, ?_⟩
  · rw [Config.load_encode hc.keepsInitial]
  · rw [Config.load_encode hc.keepsInitial]
    exact hc.value
  · intro other d older hother before a b after hne hsource hswapped
    apply hsame other d older hother
    rw [hsource, hswapped]
    exact Property.sameDue_swap hne before after

/-- A file in which later lines overwrite earlier ones, one of them under an old name. -/
def rewritten : String :=
  "[global]\nauto_shift_delay = 200\nretro_shift = on # for now\n" ++
    "auto_shift_timeout = +150\nauto_shift_repeat=no\nretro_shift = off\n"

/-- The same file with two lines in the other order, and what is overwritten left out. -/
def shortened : String :=
  "[global]\nauto_shift_repeat=no\nauto_shift_timeout = +150\nretro_shift = off\n"

/-- What both files describe. -/
def quickened : Config where
  values := #v[150, 200, 500, 0, Flag.letters ||| Flag.digits ||| Flag.symbols ||| Flag.extras]
  assigned := #v[true, false, false, false, true]

theorem runs_as_written_of_rewritten :
    compile rewritten = .ok quickened ∧ compile shortened = .ok quickened ∧
      Property.SameDue (Assignment.inSource shortened) (Assignment.inSource rewritten) ∧
      ∀ old older : Settings, (old.load quickened.encode).1 = .ok () ∧
        (old.load quickened.encode).2.valueOf (Property.ofSlot Slot.timeout 5000) =
          .duration 150 ∧
        (old.load quickened.encode).2.valueOf (Property.ofFlag Flag.dualRole) = .switch false ∧
        older.load quickened.encode = old.load quickened.encode := by
  have hrewritten : compile rewritten = .ok quickened := by decide +kernel
  have hshortened : compile shortened = .ok quickened := by decide +kernel
  have hdue : Property.SameDue (Assignment.inSource shortened) (Assignment.inSource rewritten) := by
    unfold Property.SameDue
    decide +kernel
  refine ⟨hrewritten, hshortened, hdue, ?_⟩
  intro old older
  obtain ⟨-, hload, hvalue, hsame, -⟩ := runs_as_written hrewritten old
  have htimeout := hvalue ("auto_shift_timeout", Property.ofSlot Slot.timeout 5000) (by decide)
  have hdual := hvalue ("retro_shift", Property.ofFlag Flag.dualRole) (by decide)
  refine ⟨hload, ?_, ?_, hsame shortened quickened older hshortened hdue⟩
  · apply Option.some.inj
    rw [htimeout]
    decide +kernel
  · apply Option.some.inj
    rw [hdual]
    decide +kernel

end Settings

end LongPress
