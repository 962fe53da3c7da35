import Workdays.Proofs.Selector.Bounds
import Workdays.Proofs.Text.Faithful
import Workdays.Selector.Basic

/-!
# Forms of selectors

The form of a selector denotes this selector or nothing. It denotes nothing when a bound is negative
or when a period does not fit among the numbers that are read, and the selectors that are read from
any text have neither.

## Main definitions

* `Interval.IsLegible`, `Stride.IsLegible`, `Selector.IsLegible`: all numbers of the selector can be
  read.
* `Domain.Nonneg`: the class of the domains without a negative bound.
-/

namespace Workdays

class Domain.Nonneg (D : Domain) : Prop where
  isNonneg : D.bounds.IsNonneg

instance : Domain.years.Nonneg := ⟨by decide⟩
instance : Domain.months.Nonneg := ⟨by decide⟩
instance : Domain.daysOfMonth.Nonneg := ⟨by decide⟩
instance : Domain.daysOfWeek.Nonneg := ⟨by decide⟩

variable {D : Domain} {cs : List Char}

theorem Domain.complete_none (D : Domain) : D.complete ⟨none, none⟩ = D.bounds := by
  simp [complete]

/-- Bounds are complete as they are if they are missing only where the domain is open. -/
theorem Domain.complete_eq_self {b : Bounds} (hlower : b.lower = none → D.bounds.lower = none)
    (hupper : b.upper = none → D.bounds.upper = none) : D.complete b = b := by
  obtain ⟨_ | lower, _ | upper⟩ := b <;> simp_all [complete]

theorem Domain.isNonneg_complete [hD : D.Nonneg] {b : Bounds} (h : b.IsNonneg) :
    (D.complete b).IsNonneg := by
  obtain ⟨hl, hu⟩ := hD.isNonneg
  obtain ⟨_ | lower, _ | upper⟩ := b <;> simp_all [complete, Bounds.IsNonneg]

/-! ## Intervals -/

namespace Interval

def IsLegible (r : Interval D) : Prop := r.bounds.IsNonneg

instance (r : Interval D) : Decidable r.IsLegible := inferInstanceAs (Decidable r.bounds.IsNonneg)

theorem complete_bounds (r : Interval D) : D.complete r.bounds = r.bounds :=
  Domain.complete_eq_self r.lower_open r.upper_open

theorem read?_eq_some_iff {r : Interval D} :
    read? D cs = some r ↔ ∃ b, Bounds.read? cs = some b ∧ r.bounds = D.complete b := by
  simp only [read?, Option.bind_eq_bind, Option.bind_eq_some_iff, toOption_eq_some_iff,
    ofBounds_eq_ok_iff]

theorem isLegible_of_read? [D.Nonneg] {r : Interval D} (h : read? D cs = some r) :
    r.IsLegible := by
  obtain ⟨b, hb, hr⟩ := read?_eq_some_iff.1 h
  rw [IsLegible, hr]
  exact Domain.isNonneg_complete (Bounds.isNonneg_of_read? hb)

theorem slash_notMem_of_read? {r : Interval D} (h : read? D cs = some r) : '/' ∉ cs := by
  obtain ⟨b, hb, -⟩ := read?_eq_some_iff.1 h
  intro hc
  simpa using Bounds.mem_of_read? hb '/' hc

theorem mem_write {r : Interval D} {c : Char} (h : c ∈ r.write) :
    c.isDigit ∨ c ∈ ['-', '.', '*'] := by
  unfold write at h
  split at h
  · simp_all
  · exact Bounds.mem_write h

theorem write_ne_nil (r : Interval D) : r.write ≠ [] := by
  unfold write
  split
  · simp
  · obtain ⟨_ | lower, _ | upper⟩ := r.bounds <;> simp only [Bounds.write]
    case some.some => split <;> simp [Bounds.writeNumber_ne_nil]
    all_goals simp

/-- An interval is read back from its form unless a bound is negative. -/
theorem read?_write_eq_some_iff [hD : D.Nonneg] {r s : Interval D} :
    read? D r.write = some s ↔ r.IsLegible ∧ s = r := by
  rw [read?_eq_some_iff, write]
  split
  · next hall =>
    have hstar : Bounds.read? ['*'] = some ⟨none, none⟩ := rfl
    have hr : r.IsLegible := by
      rw [IsLegible, show r.bounds = D.bounds from hall]
      exact hD.isNonneg
    simp only [hstar, Option.some.injEq, exists_eq_left', D.complete_none, hr, true_and]
    exact ⟨fun h => ext (h.trans hall.symm), fun h => h ▸ hall⟩
  · simp only [Bounds.read?_write_eq_some_iff]
    constructor
    · intro h
      obtain ⟨b, ⟨hb, rfl⟩, hs⟩ := h
      exact ⟨hb, ext (hs.trans r.complete_bounds)⟩
    · intro h
      obtain ⟨hr, rfl⟩ := h
      exact ⟨s.bounds, ⟨hr, rfl⟩, s.complete_bounds.symm⟩

theorem isLegible_all (D : Domain) [hD : D.Nonneg] : (all D).IsLegible := hD.isNonneg

theorem write_all (D : Domain) : (all D).write = ['*'] := if_pos rfl

end Interval

/-! ## Strides -/

namespace Stride

/-- No bound is negative, and the period is a number that can be read. -/
def IsLegible (s : Stride D) : Prop := s.bounds.IsNonneg ∧ s.period.toNat ≤ 2147483647

instance (s : Stride D) : Decidable s.IsLegible := inferInstanceAs (Decidable (_ ∧ _))

/-- Reads the bounds of a stride: `A`, `A..` or `A..B`. -/
def readRange? (cs : List Char) : Option (Int32 × Option Int32) :=
  match Text.splitFirst? ['.', '.'] cs with
  | none => (Bounds.readNumber? cs).map fun first => (first, none)
  | some (first, last) =>
    (Bounds.readNumber? first).bind fun first =>
      (Bounds.readOptional? last).map fun last => (first, last)

theorem read?_eq : read? D cs = (Text.splitLast? '/' cs).bind fun (range, period) =>
    (Bounds.readNumber? period).bind fun p => (readRange? range).bind fun (first, last) =>
      (ofBounds D first last p.toUInt32).toOption := by
  unfold read? readRange?
  rcases Text.splitLast? '/' cs with _ | ⟨range, period⟩
  · rfl
  rcases hp : Bounds.readNumber? period with _ | p
  · simp [hp]
  simp only [Option.bind_eq_bind, Option.bind_some, hp]
  rcases Text.splitFirst? ['.', '.'] range with _ | ⟨first, last⟩
  · rfl
  simp only
  rcases Bounds.readNumber? first with _ | first
  · rfl
  rcases Bounds.readOptional? last with _ | last <;> rfl

/-- A text of a stride has its bounds before the last slash and its period after it. -/
theorem read?_eq_some_iff {s : Stride D} :
    read? D cs = some s ↔ ∃ range period p, Text.splitLast? '/' cs = some (range, period) ∧
      Bounds.readNumber? period = some p ∧ readRange? range = some (s.first, s.last) ∧
      s.period = p.toUInt32 := by
  have hread : ∀ {first last p}, (ofBounds D first last p).toOption = some s ↔
      s.first = first ∧ s.last = last ∧ s.period = p := by
    intro first last p
    rw [toOption_eq_some_iff, ofBounds_eq_ok_iff]
  simp only [read?_eq, Option.bind_eq_some_iff, Prod.exists, hread]
  constructor
  · intro h
    obtain ⟨range, period, hcut, p, hp, first, last, hrange, rfl, rfl, hperiod⟩ := h
    exact ⟨range, period, p, hcut, hp, hrange, hperiod⟩
  · intro h
    obtain ⟨range, period, p, hcut, hp, hrange, hperiod⟩ := h
    exact ⟨range, period, hcut, p, hp, _, _, hrange, rfl, rfl, hperiod⟩

/-- The bounds of a stride are one number, or stand on both sides of dots, of which only the last
one may be left out. -/
theorem readRange?_eq_some_iff {first : Int32} {last : Option Int32} :
    readRange? cs = some (first, last) ↔
      Bounds.IsNumeralOf cs first ∧ last = none ∨
        ∃ digits rest, cs = digits ++ (['.', '.'] ++ rest) ∧ Bounds.IsNumeralOf digits first ∧
          Bounds.readOptional? rest = some last := by
  simp only [← Bounds.readNumber?_eq_some_iff_isNumeralOf]
  constructor
  · intro h
    unfold readRange? at h
    split at h
    · obtain ⟨a, ha, heq⟩ := Option.map_eq_some_iff.1 h
      cases heq
      exact .inl ⟨ha, rfl⟩
    · next hcut =>
      obtain ⟨a, ha, h⟩ := Option.bind_eq_some_iff.1 h
      obtain ⟨b, hb, heq⟩ := Option.map_eq_some_iff.1 h
      cases heq
      rw [Text.eq_append_of_splitFirst? hcut, List.append_assoc]
      exact .inr ⟨_, _, rfl, ha, hb⟩
  · have hdot {digits : List Char} {v : Int32} (hv : Bounds.readNumber? digits = some v) :
        '.' ∉ digits :=
      (Bounds.readNumber?_eq_some_iff_isNumeralOf.1 hv).notMem (by decide)
    intro h
    obtain ⟨hfirst, rfl⟩ | ⟨digits, rest, rfl, hfirst, hlast⟩ := h
    · rw [readRange?, Text.splitFirst?_eq_none List.mem_cons_self (hdot hfirst)]
      simp only [hfirst, Option.map_some]
    · rw [readRange?, Text.splitFirst?_append List.mem_cons_self (hdot hfirst)]
      simp only [hfirst, hlast, Option.bind_some, Option.map_some]

theorem nonneg_of_readRange? {first : Int32} {last : Option Int32}
    (h : readRange? cs = some (first, last)) : Bounds.IsNonneg ⟨some first, last⟩ := by
  obtain ⟨hfirst, rfl⟩ | ⟨digits, rest, -, hfirst, hlast⟩ := readRange?_eq_some_iff.1 h
  · exact ⟨by simpa using hfirst.nonneg, nofun⟩
  · exact ⟨by simpa using hfirst.nonneg, Bounds.nonneg_of_readOptional? hlast⟩

theorem isLegible_of_read? {s : Stride D} (h : read? D cs = some s) : s.IsLegible := by
  obtain ⟨range, period, p, -, hp, hrange, hperiod⟩ := read?_eq_some_iff.1 h
  obtain ⟨n, -, hn, rfl⟩ := Bounds.readNumber?_eq_some_iff.1 hp
  refine ⟨nonneg_of_readRange? hrange, ?_⟩
  rw [hperiod, Int32.toUInt32_ofNat', UInt32.toNat_ofNat']
  omega

theorem mem_of_readRange? {first : Int32} {last : Option Int32}
    (h : readRange? cs = some (first, last)) : ∀ c ∈ cs, c.isDigit ∨ c = '.' := by
  obtain ⟨hfirst, -⟩ | ⟨digits, rest, rfl, hfirst, hlast⟩ := readRange?_eq_some_iff.1 h
  · exact fun c hc => .inl (hfirst.isNumeral.2 c hc)
  · grind [hfirst.isNumeral.2, Bounds.isDigit_of_readOptional? hlast]

theorem mem_of_read? {s : Stride D} (h : read? D cs = some s) :
    '/' ∈ cs ∧ ∀ c ∈ cs, c.isDigit ∨ c ∈ ['.', '/'] := by
  obtain ⟨range, period, p, hcut, hp, hrange, -⟩ := read?_eq_some_iff.1 h
  have hr := mem_of_readRange? hrange
  have hd := (Bounds.isNumeral_of_readNumber? hp).2
  rw [Text.eq_append_of_splitLast? hcut]
  grind

def writeRange (s : Stride D) : List Char :=
  Bounds.writeNumber s.first
    ++ match s.last with
      | none => []
      | some last => ['.', '.'] ++ Bounds.writeNumber last

theorem write_eq (s : Stride D) :
    s.write = s.writeRange ++ '/' :: Text.writeNat s.period.toNat := rfl

theorem mem_write {s : Stride D} {c : Char} (h : c ∈ s.write) :
    c.isDigit ∨ c ∈ ['-', '.', '/'] := by
  have hfirst := @Bounds.isDigit_or_eq_of_mem_writeNumber s.first c
  have hperiod := (Text.isNumeral_writeNat s.period.toNat).2 c
  rw [write_eq, writeRange] at h
  cases hlast : s.last with
  | none => grind
  | some last =>
    have := @Bounds.isDigit_or_eq_of_mem_writeNumber last c
    grind

theorem readRange?_writeRange_eq_some_iff {s : Stride D} {first : Int32}
    {last : Option Int32} :
    readRange? s.writeRange = some (first, last) ↔
      s.bounds.IsNonneg ∧ first = s.first ∧ last = s.last := by
  have hdot : '.' ∉ Bounds.writeNumber s.first := fun h => by
    simpa using Bounds.isDigit_or_eq_of_mem_writeNumber h
  have hnonneg : s.bounds.IsNonneg ↔ 0 ≤ s.first ∧ ∀ a ∈ s.last, 0 ≤ a := by
    simp [Bounds.IsNonneg, bounds]
  rw [hnonneg, readRange?, writeRange]
  cases s.last with
  | none =>
    rw [List.append_nil, Text.splitFirst?_eq_none List.mem_cons_self hdot]
    simp only [Option.map_eq_some_iff, Bounds.readNumber?_writeNumber_eq_some_iff]
    grind
  | some value =>
    rw [Text.splitFirst?_append List.mem_cons_self hdot]
    have hvalue : ∀ w, Bounds.readOptional? (Bounds.writeNumber value) = some w ↔
        (∀ a ∈ some value, 0 ≤ a) ∧ w = some value := fun w =>
      Bounds.readOptional?_writeOptional_eq_some_iff (v := some value)
    simp only [Option.bind_eq_some_iff, Option.map_eq_some_iff, hvalue,
      Bounds.readNumber?_writeNumber_eq_some_iff]
    constructor
    · intro h
      obtain ⟨_, ⟨hf, rfl⟩, _, ⟨hl, rfl⟩, heq⟩ := h
      cases heq
      exact ⟨⟨hf, hl⟩, rfl, rfl⟩
    · intro h
      obtain ⟨⟨hf, hl⟩, rfl, rfl⟩ := h
      exact ⟨_, ⟨hf, rfl⟩, _, ⟨hl, rfl⟩, rfl⟩

/-- A stride is read back from its form unless a bound is negative or the period too large. -/
theorem read?_write_eq_some_iff {s t : Stride D} :
    read? D s.write = some t ↔ s.IsLegible ∧ t = s := by
  have hslash : '/' ∉ Text.writeNat s.period.toNat := fun h => by
    simpa using (Text.isNumeral_writeNat _).2 '/' h
  have hperiod : (Int32.ofNat s.period.toNat).toUInt32 = s.period := by simp
  rw [read?_eq_some_iff, write_eq, Text.splitLast?_append hslash]
  constructor
  · intro h
    obtain ⟨_, _, _, heq, hp, hrange, hperiod'⟩ := h
    cases heq
    obtain ⟨n, hn, hle, rfl⟩ := Bounds.readNumber?_eq_some_iff.1 hp
    rw [Text.readNat?_writeNat] at hn
    cases hn
    obtain ⟨hb, hfirst, hlast⟩ := readRange?_writeRange_eq_some_iff.1 hrange
    exact ⟨⟨hb, hle⟩, ext hfirst hlast (hperiod'.trans hperiod)⟩
  · intro h
    obtain ⟨⟨hb, hle⟩, rfl⟩ := h
    exact ⟨_, _, _, rfl,
      Bounds.readNumber?_eq_some_iff.2 ⟨_, Text.readNat?_writeNat _, hle, rfl⟩,
      readRange?_writeRange_eq_some_iff.2 ⟨hb, rfl, rfl⟩, hperiod.symm⟩

end Stride

/-- Only a stride has a slash. -/
theorem Stride.read?_eq_none_or_interval : read? D cs = none ∨ Interval.read? D cs = none := by
  by_cases hslash : '/' ∈ cs
  · refine .inr (Option.eq_none_iff_forall_ne_some.2 fun r hr => ?_)
    exact Interval.slash_notMem_of_read? hr hslash
  · refine .inl (Option.eq_none_iff_forall_ne_some.2 fun t ht => ?_)
    exact hslash (mem_of_read? ht).1

/-! ## Selectors -/

namespace Selector

def IsLegible : Selector D → Prop
  | .interval r => r.IsLegible
  | .stride s => s.IsLegible

instance : (s : Selector D) → Decidable s.IsLegible
  | .interval r => inferInstanceAs (Decidable r.IsLegible)
  | .stride s => inferInstanceAs (Decidable s.IsLegible)

/-- The readers of the two kinds, in the order in which they are tried. -/
def readers (D : Domain) : List (List Char → Option (Selector D)) :=
  [fun cs => (Stride.read? D cs).map .stride, fun cs => (Interval.read? D cs).map .interval]

theorem read?_eq_findSome? : read? D cs = (readers D).findSome? (· cs) := by
  simp only [read?, readers, List.findSome?_cons, List.findSome?_nil]
  cases Stride.read? D cs <;> cases Interval.read? D cs <;> rfl

theorem exclusive_readers (D : Domain) : Exclusive (readers D) := by
  refine List.pairwise_pair.2 fun cs => ?_
  simp only [Option.map_eq_none_iff]
  exact Stride.read?_eq_none_or_interval

theorem read?_eq_some_iff {s : Selector D} :
    read? D cs = some s ↔
      (∃ t, Stride.read? D cs = some t ∧ s = .stride t) ∨
        ∃ r, Interval.read? D cs = some r ∧ s = .interval r := by
  rw [read?_eq_findSome?, (exclusive_readers D).findSome?_eq_some_iff]
  simp [readers, eq_comm]

theorem isLegible_of_read? [D.Nonneg] {s : Selector D} (h : read? D cs = some s) :
    s.IsLegible := by
  rcases read?_eq_some_iff.1 h with ⟨t, ht, rfl⟩ | ⟨r, hr, rfl⟩
  · exact Stride.isLegible_of_read? ht
  · exact Interval.isLegible_of_read? hr

theorem mem_write {s : Selector D} {c : Char} (h : c ∈ s.write) :
    c.isDigit ∨ c ∈ ['-', '.', '*', '/'] := by
  cases s with
  | interval r => have := Interval.mem_write h; grind
  | stride t => have := Stride.mem_write h; grind

/-- A selector is read back from its form if all its numbers can be read. -/
theorem read?_write_eq_some_iff [D.Nonneg] {s t : Selector D} :
    read? D s.write = some t ↔ s.IsLegible ∧ t = s := by
  rw [read?_eq_some_iff]
  cases s with
  | interval r =>
    have hstride : ∀ t, Stride.read? D r.write ≠ some t := fun t ht => by
      simpa using Interval.mem_write (Stride.mem_of_read? ht).1
    simp [write, hstride, Interval.read?_write_eq_some_iff, IsLegible]
  | stride s =>
    have hinterval : ∀ r, Interval.read? D s.write ≠ some r := fun r hr =>
      Interval.slash_notMem_of_read? hr (by simp [Stride.write_eq])
    simp [write, hinterval, Stride.read?_write_eq_some_iff, IsLegible]

instance [D.Nonneg] : Faithful (Selector D) where
  IsLegible := IsLegible
  write_ne_nil
    | .interval r => r.write_ne_nil
    | .stride s => by simp [Written.write, write, Stride.write_eq]
  isPlain_write _ := Text.isPlain_of_isDigit_or_mem (by decide) fun _ => mem_write
  read?_write_eq_some_iff := read?_write_eq_some_iff
  isLegible_of_read? := isLegible_of_read?

instance [D.Nonneg] : DecidablePred (Faithful.IsLegible : Selector D → Prop) :=
  inferInstanceAs (DecidablePred IsLegible)

end Selector

end Workdays
