import Workdays.Proofs.Text.Segments
import Workdays.Selector.Bounds

/-!
# Forms of bounds

Bounds are read from five forms and from no other text. They are written with a sign where they are
negative, but only digits are read. So the form of bounds denotes these bounds if none is negative,
and nothing otherwise.

## Main definitions

* `Bounds.IsNonneg`: no bound is negative.
* `Bounds.IsNumeralOf`: the digits of a bound.
* `Bounds.IsFormOf`: the forms of bounds.
-/

namespace Workdays

namespace Bounds

def IsNonneg (b : Bounds) : Prop := (∀ a ∈ b.lower, 0 ≤ a) ∧ (∀ a ∈ b.upper, 0 ≤ a)

instance (b : Bounds) : Decidable b.IsNonneg :=
  @instDecidableAnd _ _ (Option.decidableForallMem _) (Option.decidableForallMem _)

/-- The text is a run of digits, and the number is its value. -/
structure IsNumeralOf (cs : List Char) (v : Int32) : Prop where
  isNumeral : Text.IsNumeral cs
  value : v.toInt = Nat.ofDigitChars 10 cs 0

/-- The text is `*`, `N`, `A..B`, `A..` or `..B`, for these bounds. -/
inductive IsFormOf : List Char → Bounds → Prop
  | all : IsFormOf ['*'] ⟨none, none⟩
  | single {cs : List Char} {v : Int32} : IsNumeralOf cs v → IsFormOf cs ⟨some v, some v⟩
  | between {as bs : List Char} {a b : Int32} : IsNumeralOf as a → IsNumeralOf bs b →
      IsFormOf (as ++ (['.', '.'] ++ bs)) ⟨some a, some b⟩
  | least {as : List Char} {a : Int32} : IsNumeralOf as a →
      IsFormOf (as ++ ['.', '.']) ⟨some a, none⟩
  | most {bs : List Char} {b : Int32} : IsNumeralOf bs b →
      IsFormOf (['.', '.'] ++ bs) ⟨none, some b⟩

/-! ## Numbers -/

variable {cs : List Char} {v w : Int32}

theorem readNumber?_eq_some_iff :
    readNumber? cs = some v ↔
      ∃ n, Text.readNat? cs = some n ∧ n ≤ 2147483647 ∧ v = Int32.ofNat n := by
  unfold readNumber?
  cases Text.readNat? cs with
  | none => simp
  | some n => by_cases hn : n ≤ 2147483647 <;> simp [hn, eq_comm]

/-- A number that is too large for a bound is the value of no bound, so it need not be excluded. -/
theorem readNumber?_eq_some_iff_isNumeralOf : readNumber? cs = some v ↔ IsNumeralOf cs v := by
  have hlt := v.toInt_lt
  rw [readNumber?_eq_some_iff, Text.readNat?]
  constructor
  · intro h
    obtain ⟨n, hn, hle, rfl⟩ := h
    split at hn
    · next hnumeral =>
      cases hn
      exact ⟨hnumeral, Int32.toInt_ofNat_of_lt (by omega)⟩
    · cases hn
  · intro h
    obtain ⟨hnumeral, hvalue⟩ := h
    refine ⟨_, if_pos hnumeral, by omega, ?_⟩
    rw [← Int32.toInt_inj, hvalue, Int32.toInt_ofNat_of_lt (by omega)]

theorem isNumeral_of_readNumber? (h : readNumber? cs = some v) : Text.IsNumeral cs :=
  (readNumber?_eq_some_iff_isNumeralOf.1 h).isNumeral

theorem IsNumeralOf.nonneg (h : IsNumeralOf cs v) : 0 ≤ v := by
  rw [Int32.le_iff_toInt_le, h.value, Int32.toInt_zero]
  omega

theorem IsNumeralOf.notMem {c : Char} (h : IsNumeralOf cs v) (hc : c.isDigit = false) :
    c ∉ cs := by
  intro hmem
  rw [h.isNumeral.2 c hmem] at hc
  cases hc

theorem nonneg_of_readNumber? (h : readNumber? cs = some v) : 0 ≤ v :=
  (readNumber?_eq_some_iff_isNumeralOf.1 h).nonneg

theorem writeNumber_ne_nil (v : Int32) : writeNumber v ≠ [] := by
  unfold writeNumber Text.writeInt
  split
  · simp
  · exact (Text.isNumeral_writeNat _).1

theorem isDigit_or_eq_of_mem_writeNumber {c : Char} (h : c ∈ writeNumber v) :
    c.isDigit ∨ c = '-' := by
  unfold writeNumber Text.writeInt at h
  split at h
  · obtain rfl | h := List.mem_cons.1 h
    · exact .inr rfl
    · exact .inl ((Text.isNumeral_writeNat _).2 c h)
  · exact .inl ((Text.isNumeral_writeNat _).2 c h)

/-- A number is read from its digits, but not if they follow a sign. -/
theorem readNumber?_writeNumber_eq_some_iff :
    readNumber? (writeNumber v) = some w ↔ 0 ≤ v ∧ w = v := by
  have hlt := v.toInt_lt
  by_cases hv : v.toInt < 0
  · have hneg : ¬ 0 ≤ v := by
      rw [Int32.le_iff_toInt_le, Int32.toInt_zero]
      omega
    refine ⟨fun h => ?_, fun h => absurd h.1 hneg⟩
    have hc := (isNumeral_of_readNumber? h).2 '-' (by simp [writeNumber, Text.writeInt, hv])
    simp at hc
  · have hnonneg : 0 ≤ v := by
      rw [Int32.le_iff_toInt_le, Int32.toInt_zero]
      omega
    have hw : v = Int32.ofNat v.toInt.natAbs := by
      rw [← Int32.toInt_inj, Int32.toInt_ofNat_of_lt (by omega)]
      omega
    have hle : v.toInt.natAbs ≤ 2147483647 := by omega
    rw [readNumber?_eq_some_iff, writeNumber, Text.writeInt, if_neg hv, Text.readNat?_writeNat]
    simp [hnonneg, hle, ← hw]

/-! ## Numbers that may be left out -/

def writeOptional (v : Option Int32) : List Char := (v.map writeNumber).getD []

theorem isDigit_or_eq_of_mem_writeOptional {v : Option Int32} {c : Char}
    (h : c ∈ writeOptional v) : c.isDigit ∨ c = '-' := by
  cases v with
  | none => simp [writeOptional] at h
  | some v => exact isDigit_or_eq_of_mem_writeNumber h

theorem readOptional?_writeOptional_eq_some_iff {v w : Option Int32} :
    readOptional? (writeOptional v) = some w ↔ (∀ a ∈ v, 0 ≤ a) ∧ w = v := by
  cases v with
  | none => simp [readOptional?, writeOptional, eq_comm]
  | some v =>
    simp only [readOptional?, writeOptional, Option.map_some, Option.getD_some,
      writeNumber_ne_nil, if_false, Option.map_eq_some_iff, readNumber?_writeNumber_eq_some_iff]
    grind

theorem nonneg_of_readOptional? {v : Option Int32} (h : readOptional? cs = some v) :
    ∀ a ∈ v, 0 ≤ a := by
  unfold readOptional? at h
  split at h
  · cases h
    simp
  · obtain ⟨w, hw, rfl⟩ := Option.map_eq_some_iff.1 h
    rintro a ⟨⟩
    exact nonneg_of_readNumber? hw

theorem isDigit_of_readOptional? {v : Option Int32} (h : readOptional? cs = some v) :
    ∀ c ∈ cs, c.isDigit := by
  unfold readOptional? at h
  split at h
  · simp [*]
  · obtain ⟨w, hw, rfl⟩ := Option.map_eq_some_iff.1 h
    exact (isNumeral_of_readNumber? hw).2

/-! ## Bounds -/

theorem write_eq_writeOptional {lower upper : Option Int32}
    (h : lower ≠ none ∨ upper ≠ none) (hne : lower ≠ upper) :
    write ⟨lower, upper⟩ = writeOptional lower ++ ['.', '.'] ++ writeOptional upper := by
  cases lower <;> cases upper <;> simp_all [write, writeOptional]

theorem mem_write {b : Bounds} {c : Char} (h : c ∈ b.write) :
    c.isDigit ∨ c ∈ ['-', '.', '*'] := by
  obtain ⟨lower, upper⟩ := b
  by_cases hne : lower = upper
  · subst hne
    cases lower with
    | none => simp_all [write]
    | some v =>
      have := isDigit_or_eq_of_mem_writeNumber (v := v) (by simpa [write] using h)
      grind
  · rw [write_eq_writeOptional (by grind) hne] at h
    have := @isDigit_or_eq_of_mem_writeOptional lower c
    have := @isDigit_or_eq_of_mem_writeOptional upper c
    grind

theorem readOptional?_eq_some_iff {v : Option Int32} :
    readOptional? cs = some v ↔ cs = [] ∧ v = none ∨ ∃ w, IsNumeralOf cs w ∧ v = some w := by
  simp only [readOptional?, ← readNumber?_eq_some_iff_isNumeralOf]
  split
  · next hnil =>
    subst hnil
    have hnone (w : Int32) : readNumber? [] ≠ some w := nofun
    simp [hnone, eq_comm]
  · next hne =>
    rw [Option.map_eq_some_iff]
    simp [hne, eq_comm]

/-- Bounds are read on both sides of the dots, of which one must be there. -/
theorem read?_append {lower upper : List Char} {l u : Option Int32}
    (hl : readOptional? lower = some l) (hu : readOptional? upper = some u)
    (hsome : ¬ (l = none ∧ u = none)) :
    read? (lower ++ (['.', '.'] ++ upper)) = some ⟨l, u⟩ := by
  have hdot : '.' ∉ lower := fun hc => by simpa using isDigit_of_readOptional? hl '.' hc
  have hstar : lower ++ (['.', '.'] ++ upper) ≠ ['*'] :=
    ne_of_mem_of_not_mem' (by simp : '.' ∈ lower ++ (['.', '.'] ++ upper)) (by simp)
  rw [read?, if_neg hstar, Text.splitFirst?_append List.mem_cons_self hdot]
  simp only [hl, hu, Option.bind_eq_bind, Option.bind_some, hsome, if_false]

theorem read?_eq_some_iff {b : Bounds} : read? cs = some b ↔ IsFormOf cs b := by
  constructor
  · intro h
    unfold read? at h
    split at h
    · next hstar =>
      cases h
      exact hstar ▸ .all
    · split at h
      · obtain ⟨v, hv, hb⟩ := Option.bind_eq_some_iff.1 h
        cases hb
        exact .single (readNumber?_eq_some_iff_isNumeralOf.1 hv)
      · next lower upper hcut =>
        obtain ⟨l, hl, h⟩ := Option.bind_eq_some_iff.1 h
        obtain ⟨u, hu, h⟩ := Option.bind_eq_some_iff.1 h
        rw [readOptional?_eq_some_iff] at hl hu
        rw [Text.eq_append_of_splitFirst? hcut, List.append_assoc]
        split at h
        · cases h
        · cases h
          obtain ⟨rfl, rfl⟩ | ⟨a, ha, rfl⟩ := hl
          · obtain ⟨rfl, rfl⟩ | ⟨b, hb, rfl⟩ := hu
            · simp_all
            · exact .most hb
          · obtain ⟨rfl, rfl⟩ | ⟨b, hb, rfl⟩ := hu
            · exact .least ha
            · exact .between ha hb
  · intro h
    have hnone : readOptional? [] = some none := rfl
    have hsome {cs : List Char} {v : Int32} (hv : IsNumeralOf cs v) :
        readOptional? cs = some (some v) := readOptional?_eq_some_iff.2 (.inr ⟨v, hv, rfl⟩)
    cases h with
    | all => rfl
    | single hv =>
      have hdot : '.' ∉ cs := hv.notMem (by decide)
      have hstar : cs ≠ ['*'] := fun h => hv.notMem (by decide) (h ▸ List.mem_singleton_self '*')
      rw [read?, if_neg hstar, Text.splitFirst?_eq_none List.mem_cons_self hdot]
      simp only [readNumber?_eq_some_iff_isNumeralOf.2 hv, Option.bind_eq_bind, Option.bind_some]
    | between ha hb => exact read?_append (hsome ha) (hsome hb) (by simp)
    | least ha => exact read?_append (hsome ha) hnone (by simp)
    | most hb => exact read?_append hnone (hsome hb) (by simp)

theorem isNonneg_of_read? {b : Bounds} (h : read? cs = some b) : b.IsNonneg := by
  cases read?_eq_some_iff.1 h with
  | all => exact ⟨nofun, nofun⟩
  | single hv => simpa [IsNonneg] using hv.nonneg
  | between ha hb => simpa [IsNonneg] using ⟨ha.nonneg, hb.nonneg⟩
  | least ha => simpa [IsNonneg] using ha.nonneg
  | most hb => simpa [IsNonneg] using hb.nonneg

theorem mem_of_read? {b : Bounds} (h : read? cs = some b) :
    ∀ c ∈ cs, c.isDigit ∨ c ∈ ['.', '*'] := by
  cases read?_eq_some_iff.1 h with
  | all => simp
  | single hv => exact fun c hc => .inl (hv.isNumeral.2 c hc)
  | between ha hb => grind [ha.isNumeral.2, hb.isNumeral.2]
  | least ha => grind [ha.isNumeral.2]
  | most hb => grind [hb.isNumeral.2]

/-- Bounds are read back from their form unless one is negative. -/
theorem read?_write_eq_some_iff {b c : Bounds} :
    read? b.write = some c ↔ b.IsNonneg ∧ c = b := by
  obtain ⟨lower, upper⟩ := b
  by_cases hne : lower = upper
  · subst hne
    cases lower with
    | none => simp [write, read?, IsNonneg, eq_comm]
    | some v =>
      have hdot : '.' ∉ writeNumber v := fun h => by
        simpa using isDigit_or_eq_of_mem_writeNumber h
      have hstar : writeNumber v ≠ ['*'] := fun h => by
        simpa using isDigit_or_eq_of_mem_writeNumber (c := '*') (h ▸ List.mem_singleton_self _)
      have hcut : Text.splitFirst? ['.', '.'] (writeNumber v) = none :=
        Text.splitFirst?_eq_none List.mem_cons_self hdot
      simp only [write, if_true, read?, hstar, if_false, hcut, Option.bind_eq_bind,
        Option.bind_eq_some_iff, readNumber?_writeNumber_eq_some_iff]
      simp [IsNonneg, eq_comm]
  · have hsome : lower ≠ none ∨ upper ≠ none := by grind
    have hdot : '.' ∉ writeOptional lower := fun h => by
      simpa using isDigit_or_eq_of_mem_writeOptional h
    have hstar : writeOptional lower ++ ['.', '.'] ++ writeOptional upper ≠ ['*'] := fun h => by
      have : '.' ∈ ['*'] := h ▸ by simp
      simp at this
    rw [write_eq_writeOptional hsome hne, read?, if_neg hstar, List.append_assoc,
      Text.splitFirst?_append List.mem_cons_self hdot]
    simp only [Option.bind_eq_bind, Option.bind_eq_some_iff,
      readOptional?_writeOptional_eq_some_iff]
    constructor
    · intro h
      obtain ⟨l, ⟨hl, rfl⟩, u, ⟨hu, rfl⟩, h⟩ := h
      rw [if_neg (by grind)] at h
      cases h
      exact ⟨⟨hl, hu⟩, rfl⟩
    · intro h
      obtain ⟨⟨hl, hu⟩, rfl⟩ := h
      refine ⟨lower, ⟨hl, rfl⟩, upper, ⟨hu, rfl⟩, ?_⟩
      rw [if_neg (by grind)]

end Bounds

end Workdays
