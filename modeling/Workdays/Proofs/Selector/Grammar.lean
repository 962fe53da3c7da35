import Workdays.Proofs.Selector.Year

/-!
# The grammar of selectors

A text is read as a selector when it is one of a few spellings and what it spells is valid: the
bounds lie in the domain and are in order, and a period is not zero. The selector then selects, from
the values of its domain, those that the text says. No text is for two of the readers that are
tried, so their order is of no account.

## Main definitions

* `Spelling`: what a text can spell, with the texts `Spelling.Spells` that do.
* `Spelling.IsValid`, `Spelling.Accepts`: what makes it a selector, and which values it stands for.
* `YearSpelling`: the same for years, which can be qualified.
-/

namespace Workdays

variable {D : Domain} {cs : List Char} {b : Bounds} {v : Int32}

/-- Where each value that is read is denoted by something that is spelled, there is a value to read
when what is spelled denotes one. -/
theorem exists_reads_iff {σ ε : Type} {Reads : σ → Prop} {Spells Valid : ε → Prop}
    {Denotes : ε → σ → Prop} (hreads : ∀ s, Reads s ↔ ∃ e, Spells e ∧ Denotes e s)
    (hvalid : ∀ e, Spells e → ((∃ s, Denotes e s) ↔ Valid e)) :
    (∃ s, Reads s) ↔ ∃ e, Spells e ∧ Valid e := by
  simp only [hreads]
  rw [exists_comm]
  refine exists_congr fun e => ?_
  rw [exists_and_left]
  exact and_congr_right (hvalid e)

/-! ## Bounds in a domain -/

/-- The bounds that are given lie in the domain and are in order. -/
structure Bounds.FitIn (b : Bounds) (D : Domain) : Prop where
  lower_mem : ∀ a ∈ b.lower, a ∈ D
  upper_mem : ∀ a ∈ b.upper, a ∈ D
  ordered : b.Ordered

theorem Domain.mem_complete_iff (hv : v ∈ D) : v ∈ D.complete b ↔ v ∈ b := by
  obtain ⟨hlower, hupper⟩ := Domain.mem_def.1 hv
  obtain ⟨_ | lower, _ | upper⟩ := b <;> simp_all [Bounds.mem_def, complete]

theorem Domain.fitIn_complete (h : b.FitIn D) : (D.complete b).FitIn D := by
  obtain ⟨hlower, hupper, hordered⟩ := h
  have hall : D.bounds.FitIn D :=
    ⟨(Interval.all D).lower_mem, (Interval.all D).upper_mem, D.ordered⟩
  obtain ⟨_ | lower, _ | upper⟩ := b
  case none.none => rwa [complete_none]
  case some.some => exact ⟨hlower, hupper, hordered⟩
  case none.some =>
    refine ⟨hall.lower_mem, hupper, ?_⟩
    rintro lo hlo _ ⟨⟩
    exact (hupper upper rfl).1 lo hlo
  case some.none =>
    refine ⟨hlower, hall.upper_mem, ?_⟩
    rintro _ ⟨⟩ hi hhi
    exact (hlower lower rfl).2 hi hhi

/-- There is an interval between bounds that fit in its domain, and only between these. -/
theorem Interval.exists_bounds_eq_complete_iff :
    (∃ r : Interval D, r.bounds = D.complete b) ↔ b.FitIn D := by
  constructor
  · intro h
    obtain ⟨r, hr⟩ := h
    have hlower (a : Int32) (ha : a ∈ b.lower) : a ∈ r.bounds.lower := by
      simp_all [Domain.complete]
    have hupper (a : Int32) (ha : a ∈ b.upper) : a ∈ r.bounds.upper := by
      simp_all [Domain.complete]
    refine ⟨?_, ?_, ?_⟩
    · exact fun a ha => r.lower_mem a (hlower a ha)
    · exact fun a ha => r.upper_mem a (hupper a ha)
    · exact fun lo hlo hi hhi => r.ordered lo (hlower lo hlo) hi (hupper hi hhi)
  · intro h
    obtain ⟨hlower, hupper, hordered⟩ := Domain.fitIn_complete h
    exact ⟨⟨D.complete b, hlower, hupper, by simp [Domain.complete], by simp [Domain.complete],
      hordered⟩, rfl⟩

/-! ## Periods -/

namespace Stride

theorem toNat_toUInt32 {period : Int32} (h : 0 ≤ period) :
    (period.toUInt32.toNat : Int) = period.toInt := by
  rw [Int32.toNat_toUInt32_of_le h, Int32.toInt_eq_toNatClampNeg h]

theorem toUInt32_ne_zero_iff {period : Int32} (h : 0 ≤ period) :
    period.toUInt32 ≠ 0 ↔ 1 ≤ period := by
  have hperiod := toNat_toUInt32 h
  rw [Int32.le_iff_toInt_le] at h ⊢
  rw [← UInt32.toNat_inj.ne]
  simp only [Int32.toInt_zero, Int32.toInt_one, UInt32.toNat_zero, ne_eq] at *
  omega

/-- The distance from the first value is a number of periods, as no value is before it. -/
theorem dvd_sub_iff {first v : Int} {period : Nat} (h : first ≤ v) :
    (period : Int) ∣ v - first ↔ ∃ k : Nat, v = first + k * period := by
  obtain ⟨n, hn⟩ := Int.eq_ofNat_of_zero_le (Int.sub_nonneg.2 h)
  rw [hn, Int.natCast_dvd_natCast]
  constructor
  · intro hdvd
    obtain ⟨k, rfl⟩ := hdvd
    exact ⟨k, by grind⟩
  · intro hk
    obtain ⟨k, rfl⟩ := hk
    exact ⟨k, by grind⟩

end Stride

/-! ## Spellings -/

/-- What is spelled by the text of a selector: bounds, or a first and a last value and a period. -/
inductive Spelling where
  | interval (b : Bounds)
  | stride (first : Int32) (last : Option Int32) (period : Int32)

namespace Spelling

open Bounds (IsNumeralOf IsFormOf)

/-- The text has the form of bounds, or it is `A/P`, `A../P` or `A..B/P`. -/
inductive Spells : List Char → Spelling → Prop
  | interval {cs : List Char} {b : Bounds} : IsFormOf cs b → Spells cs (.interval b)
  | every {as ps : List Char} {a p : Int32} : IsNumeralOf as a → IsNumeralOf ps p →
      Spells (as ++ '/' :: ps) (.stride a none p)
  | everyLeast {as ps : List Char} {a p : Int32} : IsNumeralOf as a → IsNumeralOf ps p →
      Spells (as ++ (['.', '.'] ++ '/' :: ps)) (.stride a none p)
  | everyBetween {as bs ps : List Char} {a b p : Int32} : IsNumeralOf as a → IsNumeralOf bs b →
      IsNumeralOf ps p → Spells (as ++ (['.', '.'] ++ (bs ++ '/' :: ps))) (.stride a (some b) p)

/-- The bounds lie in the domain and are in order, and the period is not zero. -/
def IsValid (D : Domain) : Spelling → Prop
  | .interval b => b.FitIn D
  | .stride first last period => Bounds.FitIn ⟨some first, last⟩ D ∧ 1 ≤ period

/-- The value lies within the bounds, and is some periods away from the first one. -/
def Accepts : Spelling → Int32 → Prop
  | .interval b, v => v ∈ b
  | .stride first last period, v => v ∈ (⟨some first, last⟩ : Bounds) ∧
      ∃ k : Nat, v.toInt = first.toInt + k * period.toInt

/-- The selector is made of the numbers that are spelled. -/
inductive Denotes : Spelling → Selector D → Prop
  | interval {b : Bounds} {r : Interval D} : r.bounds = D.complete b →
      Denotes (.interval b) (.interval r)
  | stride {period : Int32} {s : Stride D} : s.period = period.toUInt32 →
      Denotes (.stride s.first s.last period) (.stride s)

variable {e e' : Spelling} {first period : Int32} {last : Option Int32}

theorem spells_interval_iff : Spells cs (.interval b) ↔ Bounds.read? cs = some b := by
  rw [Bounds.read?_eq_some_iff]
  constructor
  · rintro ⟨⟩
    assumption
  · exact .interval

/-- The text of a stride is cut at its slash and its dots. -/
theorem spells_stride_iff :
    Spells cs (.stride first last period) ↔ ∃ range ps,
      Text.splitLast? '/' cs = some (range, ps) ∧ Bounds.readNumber? ps = some period ∧
        Stride.readRange? range = some (first, last) := by
  simp only [Bounds.readNumber?_eq_some_iff_isNumeralOf, Stride.readRange?_eq_some_iff]
  constructor
  · intro h
    have hcut {range ps : List Char} {p : Int32} (hp : IsNumeralOf ps p) :
        Text.splitLast? '/' (range ++ '/' :: ps) = some (range, ps) :=
      Text.splitLast?_append (hp.notMem (by decide))
    cases h with
    | every ha hp => exact ⟨_, _, hcut hp, hp, .inl ⟨ha, rfl⟩⟩
    | @everyLeast as ps a p ha hp =>
      refine ⟨as ++ ['.', '.'], ps, ?_, hp, .inr ⟨as, [], rfl, ha, rfl⟩⟩
      rw [← hcut hp, List.append_assoc]
    | @everyBetween as bs ps a b p ha hb hp =>
      have hlast := Bounds.readOptional?_eq_some_iff.2 (.inr ⟨b, hb, rfl⟩)
      refine ⟨as ++ (['.', '.'] ++ bs), ps, ?_, hp, .inr ⟨as, bs, rfl, ha, hlast⟩⟩
      rw [← hcut hp, List.append_assoc, List.append_assoc]
  · intro h
    obtain ⟨range, ps, hcut, hp, hrange⟩ := h
    rw [Text.eq_append_of_splitLast? hcut]
    obtain ⟨ha, rfl⟩ | ⟨as, rest, rfl, ha, hlast⟩ := hrange
    · exact .every ha hp
    · rw [List.append_assoc, List.append_assoc]
      obtain ⟨rfl, rfl⟩ | ⟨b, hb, rfl⟩ := Bounds.readOptional?_eq_some_iff.1 hlast
      · exact .everyLeast ha hp
      · exact .everyBetween ha hb hp

theorem read?_eq_some_iff {s : Selector D} :
    Selector.read? D cs = some s ↔ ∃ e, Spells cs e ∧ e.Denotes s := by
  rw [Selector.read?_eq_some_iff]
  constructor
  · intro h
    obtain ⟨t, ht, rfl⟩ | ⟨r, hr, rfl⟩ := h
    · obtain ⟨range, ps, p, hcut, hp, hrange, hperiod⟩ := Stride.read?_eq_some_iff.1 ht
      exact ⟨_, spells_stride_iff.2 ⟨range, ps, hcut, hp, hrange⟩, .stride hperiod⟩
    · obtain ⟨b, hb, hbounds⟩ := Interval.read?_eq_some_iff.1 hr
      exact ⟨_, spells_interval_iff.2 hb, .interval hbounds⟩
  · intro h
    obtain ⟨e, hspells, hdenotes⟩ := h
    cases hdenotes with
    | interval hbounds =>
      exact .inr ⟨_, Interval.read?_eq_some_iff.2 ⟨_, spells_interval_iff.1 hspells, hbounds⟩, rfl⟩
    | stride hperiod =>
      obtain ⟨range, ps, hcut, hp, hrange⟩ := spells_stride_iff.1 hspells
      exact .inl ⟨_, Stride.read?_eq_some_iff.2 ⟨range, ps, _, hcut, hp, hrange, hperiod⟩, rfl⟩

/-- A text spells one thing. -/
theorem Spells.unique (h : Spells cs e) (h' : Spells cs e') : e = e' := by
  have hslash {b : Bounds} (hb : Spells cs (.interval b)) : '/' ∉ cs := fun hc => by
    simpa using Bounds.mem_of_read? (spells_interval_iff.1 hb) '/' hc
  have hcut {first period : Int32} {last : Option Int32}
      (hs : Spells cs (.stride first last period)) : '/' ∈ cs := by
    obtain ⟨range, ps, hcut, -⟩ := spells_stride_iff.1 hs
    simp [Text.eq_append_of_splitLast? hcut]
  cases e with
  | interval b =>
    cases e' with
    | interval b' =>
      rw [spells_interval_iff] at h h'
      rw [Option.some.inj (h.symm.trans h')]
    | stride => exact absurd (hcut h') (hslash h)
  | stride first last period =>
    cases e' with
    | interval => exact absurd (hcut h) (hslash h')
    | stride first' last' period' =>
      obtain ⟨range, ps, hcut, hp, hrange⟩ := spells_stride_iff.1 h
      obtain ⟨range', ps', hcut', hp', hrange'⟩ := spells_stride_iff.1 h'
      cases hcut.symm.trans hcut'
      cases hp.symm.trans hp'
      cases hrange.symm.trans hrange'
      rfl

theorem Spells.mem (h : Spells cs e) : ∀ c ∈ cs, c.isDigit ∨ c ∈ ['.', '/', '*'] := by
  cases h with
  | interval hb => grind [Bounds.mem_of_read? (Bounds.read?_eq_some_iff.2 hb)]
  | every ha hp => grind [ha.isNumeral.2, hp.isNumeral.2]
  | everyLeast ha hp => grind [ha.isNumeral.2, hp.isNumeral.2]
  | everyBetween ha hb hp => grind [ha.isNumeral.2, hb.isNumeral.2, hp.isNumeral.2]

theorem Spells.period_nonneg (h : Spells cs (.stride first last period)) : 0 ≤ period := by
  obtain ⟨range, ps, -, hp, -⟩ := spells_stride_iff.1 h
  exact Bounds.nonneg_of_readNumber? hp

/-- A spelling that is valid denotes a selector, and no other does. -/
theorem exists_denotes_iff (h : Spells cs e) :
    (∃ s : Selector D, e.Denotes s) ↔ e.IsValid D := by
  cases e with
  | interval b =>
    rw [IsValid, ← Interval.exists_bounds_eq_complete_iff]
    constructor
    · rintro ⟨_, ⟨hbounds⟩⟩
      exact ⟨_, hbounds⟩
    · rintro ⟨r, hbounds⟩
      exact ⟨_, .interval hbounds⟩
  | stride first last period =>
    rw [IsValid, ← Stride.toUInt32_ne_zero_iff h.period_nonneg]
    constructor
    · intro hdenotes
      obtain ⟨_, hdenotes⟩ := hdenotes
      cases hdenotes with
      | @stride _ t hperiod =>
        refine ⟨⟨?_, t.last_mem, t.ordered⟩, hperiod ▸ t.period_ne_zero⟩
        rintro _ ⟨⟩
        exact t.first_mem
    · rintro ⟨⟨hlower, hupper, hordered⟩, hperiod⟩
      exact ⟨_, .stride (s := ⟨first, last, period.toUInt32, hperiod, hlower first rfl, hupper,
        hordered⟩) rfl⟩

theorem mem_iff_accepts {s : Selector D} (h : Spells cs e) (hs : e.Denotes s) (hv : v ∈ D) :
    v ∈ s ↔ e.Accepts v := by
  cases hs with
  | @interval b r hbounds =>
    rw [Selector.mem_interval, Interval.mem_def, hbounds, Domain.mem_complete_iff hv, Accepts]
  | @stride period s hperiod =>
    rw [Selector.mem_stride, Stride.mem_def, Accepts]
    refine and_congr_right fun hmem => ?_
    have hfirst := hmem.1 s.first rfl
    rw [Int32.le_iff_toInt_le] at hfirst
    rw [← Stride.toNat_toUInt32 h.period_nonneg, ← hperiod]
    exact Stride.dvd_sub_iff hfirst

theorem exists_read?_iff :
    (∃ s, Selector.read? D cs = some s) ↔ ∃ e, Spells cs e ∧ e.IsValid D :=
  exists_reads_iff (fun _ => read?_eq_some_iff) fun _ => exists_denotes_iff

theorem mem_iff_of_read? {s : Selector D} (hs : Selector.read? D cs = some s) (h : Spells cs e)
    (hv : v ∈ D) : v ∈ s ↔ e.Accepts v := by
  obtain ⟨e', h', hdenotes⟩ := read?_eq_some_iff.1 hs
  obtain rfl := h.unique h'
  exact mem_iff_accepts h hdenotes hv

end Spelling

/-! ## Spellings for years -/

/-- What is spelled by the text of a selector of years. -/
inductive YearSpelling where
  | plain (e : Spelling)
  | qualified (b : Bounds) (q : LeapQualifier)

namespace YearSpelling

/-- The text is that of any selector, or it has the form of bounds and the mark of a qualifier. -/
inductive Spells : List Char → YearSpelling → Prop
  | plain {cs : List Char} {e : Spelling} : Spelling.Spells cs e → Spells cs (.plain e)
  | qualified {cs : List Char} {b : Bounds} (q : LeapQualifier) : Bounds.IsFormOf cs b →
      Spells (cs ++ q.mark) (.qualified b q)

/-- What is qualified are bounds of more than one year. -/
def IsValid : YearSpelling → Prop
  | .plain e => e.IsValid .years
  | .qualified b _ => b.FitIn .years ∧ ¬ b.IsSingle

/-- The year is one of those that are qualified. -/
def Accepts : YearSpelling → Int32 → Prop
  | .plain e, v => e.Accepts v
  | .qualified b q, v => v ∈ b ∧ q.Holds v.toInt

/-- The selector of years that is not qualified. -/
def ofSelector : Selector .years → YearSelector
  | .interval r => .interval r
  | .stride s => .stride s

/-- The selector is made of the numbers that are spelled. -/
inductive Denotes : YearSpelling → YearSelector → Prop
  | plain {e : Spelling} {s : Selector .years} : e.Denotes s → Denotes (.plain e) (ofSelector s)
  | qualified {b : Bounds} {q : LeapQualifier} {r : Interval .years} (several : ¬ r.IsSingle) :
      r.bounds = Domain.years.complete b → Denotes (.qualified b q) (.qualified q r several)

variable {e e' : YearSpelling} {s : YearSelector} {q : LeapQualifier}

theorem mem_years (v : Int32) : v ∈ Domain.years := ⟨nofun, nofun⟩

theorem complete_years (b : Bounds) : Domain.years.complete b = b := by
  obtain ⟨_ | lower, _ | upper⟩ := b <;> rfl

theorem mem_ofSelector {t : Selector .years} : v ∈ ofSelector t ↔ v ∈ t := by
  cases t <;> rfl

theorem read?_plain_iff :
    (∃ t : Selector .years, Selector.read? .years cs = some t ∧ s = ofSelector t) ↔
      (∃ t, Stride.read? .years cs = some t ∧ s = .stride t) ∨
        ∃ r, Interval.read? .years cs = some r ∧ s = .interval r := by
  simp only [Selector.read?_eq_some_iff]
  constructor
  · rintro ⟨_, ⟨t, ht, rfl⟩ | ⟨r, hr, rfl⟩, rfl⟩
    · exact .inl ⟨t, ht, rfl⟩
    · exact .inr ⟨r, hr, rfl⟩
  · rintro (⟨t, ht, rfl⟩ | ⟨r, hr, rfl⟩)
    · exact ⟨.stride t, .inl ⟨t, ht, rfl⟩, rfl⟩
    · exact ⟨.interval r, .inr ⟨r, hr, rfl⟩, rfl⟩

theorem readQualified?_eq_some_iff :
    YearSelector.readQualified? q cs = some s ↔
      ∃ b, Spells cs (.qualified b q) ∧ Denotes (.qualified b q) s := by
  simp only [YearSelector.readQualified?_eq_some_iff, Interval.read?_eq_some_iff,
    Bounds.read?_eq_some_iff]
  constructor
  · rintro ⟨range, r, several, rfl, ⟨b, hb, hbounds⟩, rfl⟩
    exact ⟨b, .qualified q hb, .qualified several hbounds⟩
  · intro h
    obtain ⟨b, hspells, hdenotes⟩ := h
    cases hspells with
    | qualified _ hb =>
      cases hdenotes with
      | qualified several hbounds => exact ⟨_, _, several, rfl, ⟨b, hb, hbounds⟩, rfl⟩

theorem read?_eq_some_iff :
    YearSelector.read? cs = some s ↔ ∃ e, Spells cs e ∧ e.Denotes s := by
  simp only [YearSelector.read?_eq_some_iff, ← read?_plain_iff, readQualified?_eq_some_iff,
    Spelling.read?_eq_some_iff]
  constructor
  · rintro (⟨q, b, hspells, hdenotes⟩ | ⟨t, ⟨e, hspells, hdenotes⟩, rfl⟩)
    · exact ⟨_, hspells, hdenotes⟩
    · exact ⟨.plain e, .plain hspells, .plain hdenotes⟩
  · rintro ⟨e, hspells, hdenotes⟩
    cases hdenotes with
    | @plain e t hdenotes =>
      cases hspells with
      | plain hspells => exact .inr ⟨t, ⟨e, hspells, hdenotes⟩, rfl⟩
    | qualified several hbounds => exact .inl ⟨_, _, hspells, .qualified several hbounds⟩

theorem not_spells_append_mark {e : Spelling} : ¬ Spelling.Spells (cs ++ q.mark) e := by
  intro h
  have hmark : 'p' ∈ cs ++ q.mark := List.mem_append_right _ (by cases q <;> decide)
  simpa using h.mem 'p' hmark

theorem Spells.unique (h : Spells cs e) (h' : Spells cs e') : e = e' := by
  cases h with
  | plain h =>
    cases h' with
    | plain h' => rw [h.unique h']
    | qualified => exact absurd h not_spells_append_mark
  | @qualified range b q h =>
    generalize htext : range ++ q.mark = text at h'
    cases h' with
    | plain h' => exact absurd (htext ▸ h') not_spells_append_mark
    | @qualified range' b' q' h' =>
      obtain ⟨rfl, rfl⟩ := LeapQualifier.append_mark_inj htext
      rw [← Bounds.read?_eq_some_iff] at h h'
      rw [Option.some.inj (h.symm.trans h')]

theorem exists_denotes_iff (h : Spells cs e) : (∃ s, e.Denotes s) ↔ e.IsValid := by
  cases h with
  | @plain _ e h =>
    rw [IsValid, ← Spelling.exists_denotes_iff h]
    constructor
    · rintro ⟨_, ⟨hdenotes⟩⟩
      exact ⟨_, hdenotes⟩
    · rintro ⟨t, hdenotes⟩
      exact ⟨_, .plain hdenotes⟩
  | @qualified _ b q h =>
    rw [IsValid, ← Interval.exists_bounds_eq_complete_iff]
    constructor
    · intro hdenotes
      obtain ⟨_, hdenotes⟩ := hdenotes
      cases hdenotes with
      | qualified several hbounds =>
        rw [Interval.IsSingle, hbounds, complete_years] at several
        exact ⟨⟨_, hbounds⟩, several⟩
    · rintro ⟨⟨r, hbounds⟩, several⟩
      refine ⟨_, .qualified (r := r) ?_ hbounds⟩
      rwa [Interval.IsSingle, hbounds, complete_years]

theorem mem_iff_accepts (h : Spells cs e) (hs : e.Denotes s) : v ∈ s ↔ e.Accepts v := by
  cases hs with
  | @plain e t hdenotes =>
    cases h with
    | plain h => rw [mem_ofSelector, Spelling.mem_iff_accepts h hdenotes (mem_years v), Accepts]
  | qualified several hbounds =>
    rw [YearSelector.mem_qualified, Interval.mem_def, hbounds, complete_years, Accepts]

theorem exists_read?_iff :
    (∃ s, YearSelector.read? cs = some s) ↔ ∃ e, Spells cs e ∧ e.IsValid :=
  exists_reads_iff (fun _ => read?_eq_some_iff) fun _ => exists_denotes_iff

theorem mem_iff_of_read? (hs : YearSelector.read? cs = some s) (h : Spells cs e) :
    v ∈ s ↔ e.Accepts v := by
  obtain ⟨e', h', hdenotes⟩ := read?_eq_some_iff.1 hs
  obtain rfl := h.unique h'
  exact mem_iff_accepts h hdenotes

end YearSpelling

/-! ## What is read -/

/-- What is read as a selector is a valid spelling, and the selector selects what the text says. No
two readers accept one text, so that they can be tried in any order. -/
theorem parse?_follows_grammar :
    (∀ (D : Domain) (text : String),
      ((∃ s, parse? (Selector D) text = some s) ↔
        ∃ e : Spelling, Spelling.Spells text.toList e ∧ e.IsValid D) ∧
      (∀ s e, parse? (Selector D) text = some s → Spelling.Spells text.toList e →
        ∀ v ∈ D, v ∈ s ↔ e.Accepts v) ∧
      Exclusive (Selector.readers D) ∧
      ∀ readers : List (List Char → Option (Selector D)), readers.Perm (Selector.readers D) →
        readers.findSome? (· text.toList) = parse? (Selector D) text) ∧
    ∀ text : String,
      ((∃ s, parse? YearSelector text = some s) ↔
        ∃ e : YearSpelling, YearSpelling.Spells text.toList e ∧ e.IsValid) ∧
      (∀ s e, parse? YearSelector text = some s → YearSpelling.Spells text.toList e →
        ∀ v, v ∈ s ↔ e.Accepts v) ∧
      Exclusive YearSelector.readers ∧
      ∀ readers : List (List Char → Option YearSelector), readers.Perm YearSelector.readers →
        readers.findSome? (· text.toList) = parse? YearSelector text := by
  refine ⟨fun D text => ⟨?_, ?_, ?_, ?_⟩, fun text => ⟨?_, ?_, ?_, ?_⟩⟩
  · exact Spelling.exists_read?_iff
  · exact fun s e hs hspells v hv => Spelling.mem_iff_of_read? hs hspells hv
  · exact Selector.exclusive_readers D
  · intro readers hperm
    rw [(Selector.exclusive_readers D).findSome?_eq_of_perm hperm]
    exact Selector.read?_eq_findSome?.symm
  · exact YearSpelling.exists_read?_iff
  · exact fun s e hs hspells v => YearSpelling.mem_iff_of_read? hs hspells
  · exact YearSelector.exclusive_readers
  · intro readers hperm
    rw [YearSelector.exclusive_readers.findSome?_eq_of_perm hperm]
    exact YearSelector.read?_eq_findSome?.symm

/-- The years from 2001 on, four apart, whichever reader is tried first. -/
theorem parse?_follows_grammar_stride :
    ∃ s, parse? YearSelector "02001../4" = some s ∧ 2009 ∈ s ∧ 2010 ∉ s ∧
      YearSelector.readers.reverse.findSome? (· "02001../4".toList) = some s := by
  have hspells : YearSpelling.Spells ("02001".toList ++ (['.', '.'] ++ '/' :: "4".toList))
      (.plain (.stride 2001 none 4)) :=
    .plain (.everyLeast ⟨by decide, by decide⟩ ⟨by decide, by decide⟩)
  have hvalid : YearSpelling.IsValid (.plain (.stride 2001 none 4)) :=
    ⟨⟨fun _ _ => YearSpelling.mem_years _, nofun, nofun⟩, by decide⟩
  obtain ⟨hread, haccepts, -, horder⟩ := parse?_follows_grammar.2 "02001../4"
  obtain ⟨s, hs⟩ := hread.2 ⟨_, hspells, hvalid⟩
  refine ⟨s, hs, (haccepts s _ hs hspells 2009).2 ⟨by decide, 2, by decide⟩, ?_, ?_⟩
  · rw [haccepts s _ hs hspells 2010]
    rintro ⟨-, k, hk⟩
    have hk : (2010 : Int) = 2001 + k * 4 := hk
    omega
  · exact (horder _ (List.reverse_perm _)).trans hs

end Workdays
