import Workdays.Proofs.Rule.RoundTrip
import Workdays.Proofs.Selector.Distinct
import Workdays.Schedule.Day

/-!
# Rules of one form

The form of a rule tells all that the rule says of a date, also where the form cannot be read back.
The reader cuts a form into its parts before it looks at any number, so two forms that are equal
have equal parts, and equal parts were written for equal descriptions, periods and lists. Only an
empty list is written like the list of one selector of all values, and each of the two admits every
value that a date can have.

## Main definitions

* `Pattern.IsWrittenAs`: the lists that have the same form.
-/

namespace Workdays

/-! ## Fields of dates -/

namespace Date

theorem ofNat_mem_domain {D : Domain} {n : Nat} (lo hi : Nat)
    (hlo : D.bounds.lower = some (Int32.ofNat lo)) (hhi : D.bounds.upper = some (Int32.ofNat hi))
    (hlt : hi < 2147483648) (h : lo ≤ n ∧ n ≤ hi) : Int32.ofNat n ∈ D := by
  simp only [Domain.mem_def, Bounds.mem_def, hlo, hhi, Option.mem_some_iff, forall_eq',
    Int32.le_iff_toInt_le]
  rw [Int32.toInt_ofNat_of_lt (by omega), Int32.toInt_ofNat_of_lt (by omega),
    Int32.toInt_ofNat_of_lt (by omega)]
  omega

theorem monthValue_mem (d : Date) : d.monthValue ∈ Domain.months :=
  ofNat_mem_domain 1 12 rfl rfl (by decide) d.isDate.2.1

theorem dayValue_mem (d : Date) : d.dayValue ∈ Domain.daysOfMonth := by
  obtain ⟨-, -, hone, hle⟩ := d.isDate
  have := daysInMonth_le d.year d.month
  exact ofNat_mem_domain 1 31 rfl rfl (by decide) ⟨hone, by omega⟩

theorem weekdayValue_mem (d : Date) : d.weekdayValue ∈ Domain.daysOfWeek :=
  ofNat_mem_domain 0 6 rfl rfl (by decide) (by omega)

end Date

/-! ## Lists of one form -/

namespace Pattern

variable {σ : Type} [Written σ] [Faithful σ] [HasAll σ] {as bs : List σ}

/-- The lists are equal, or one is empty and the other has the selector of all values alone. -/
def IsWrittenAs (as bs : List σ) : Prop :=
  as = bs ∨ as = [] ∧ bs = [HasAll.all] ∨ as = [HasAll.all] ∧ bs = []

theorem fill_eq_fill_iff : fill as = fill bs ↔ IsWrittenAs as bs := by
  unfold IsWrittenAs
  cases as <;> cases bs <;> simp [fill, eq_comm]

/-- Lists have the same form when they are equal once the empty ones are filled. -/
theorem writeField_eq_writeField_iff [Distinct σ] :
    writeField as = writeField bs ↔ IsWrittenAs as bs := by
  rw [writeField_eq, writeField_eq, Distinct.writeList_inj (fill_ne_nil as) (fill_ne_nil bs),
    fill_eq_fill_iff]

/-- Where every value is selected by the selector of all values, filling a list is of no account. -/
theorem IsWrittenAs.admits_iff [Membership Int32 σ] {v : Int32} (h : IsWrittenAs as bs)
    (hall : v ∈ (HasAll.all : σ)) : Admits as v ↔ Admits bs v := by
  obtain rfl | ⟨rfl, rfl⟩ | ⟨rfl, rfl⟩ := h
  · rfl
  · simp [Admits, hall]
  · simp [Admits, hall]

variable {p q : Pattern} {d : Date}

theorem selects_iff_of_isWrittenAs (hyears : IsWrittenAs p.years q.years)
    (hmonths : IsWrittenAs p.months q.months) (hdays : IsWrittenAs p.daysOfMonth q.daysOfMonth)
    (hweekdays : IsWrittenAs p.daysOfWeek q.daysOfWeek) : p.Selects d ↔ q.Selects d := by
  have hall : d.yearValue ∈ YearSelector.all := ⟨nofun, nofun⟩
  exact and_congr (hyears.admits_iff hall) (and_congr (hmonths.admits_iff d.monthValue_mem)
    (and_congr (hdays.admits_iff d.dayValue_mem) (hweekdays.admits_iff d.weekdayValue_mem)))

end Pattern

/-! ## Rules of one form -/

namespace Rule

variable {r s : Rule}

/-- Rules with the same form are cut into the same parts. -/
theorem formParts_eq_of_text_eq (h : r.text = s.text) :
    formParts r.pattern r.descriptionText r.periods =
      formParts s.pattern s.descriptionText s.periods := by
  have hparts (t : Rule) : LineParts.read? t.write =
      some (formParts t.pattern t.descriptionText t.periods) :=
    read?_write_eq_some_formParts_iff.2 isCut_of_mem_descriptionText
  rw [text, text, String.ofList_inj] at h
  rw [← Option.some.injEq, ← hparts, ← hparts, h]

theorem periodsField_injective : Function.Injective periodsField := by
  intro periods periods' h
  have hdenote := periodsDenote_periodsField_iff.2 (Eq.refl periods)
  rw [h] at hdenote
  exact periodsDenote_periodsField_iff.1 hdenote

/-- The form of a rule tells the description, the periods and, but for empty lists, the lists of its
pattern. -/
theorem text_eq_text_iff : r.text = s.text ↔
    r.description = s.description ∧ r.periods = s.periods ∧
      Pattern.IsWrittenAs r.pattern.years s.pattern.years ∧
      Pattern.IsWrittenAs r.pattern.months s.pattern.months ∧
      Pattern.IsWrittenAs r.pattern.daysOfMonth s.pattern.daysOfMonth ∧
      Pattern.IsWrittenAs r.pattern.daysOfWeek s.pattern.daysOfWeek := by
  simp only [← Pattern.writeField_eq_writeField_iff]
  constructor
  · intro h
    have hparts := formParts_eq_of_text_eq h
    rw [formParts, formParts, LineParts.mk.injEq] at hparts
    obtain ⟨hyears, hmonths, hdays, hweekdays, hdescription, hperiods⟩ := hparts
    have htext : r.descriptionText = s.descriptionText :=
      Option.map_injective (fun _ _ => String.toList_injective) hdescription
    exact ⟨description_eq_of_descriptionText_eq htext, periodsField_injective hperiods, hyears,
      hmonths, hdays, hweekdays⟩
  · intro h
    obtain ⟨hdescription, hperiods, hyears, hmonths, hdays, hweekdays⟩ := h
    simp only [text, write, Pattern.write, descriptionText, hdescription, hperiods, hyears, hmonths,
      hdays, hweekdays]

/-- Rules of one form have the same description and periods and select the same dates, of which they
say the same; their lists differ at most by an empty list in place of the selector of all values. -/
theorem text_tells_days (h : r.text = s.text) :
    (r.description = s.description ∧ r.periods = s.periods) ∧
      (∀ d, r.Selects d ↔ s.Selects d) ∧ (∀ d, Day.ofRule d r = Day.ofRule d s) ∧
      Pattern.IsWrittenAs r.pattern.years s.pattern.years ∧
      Pattern.IsWrittenAs r.pattern.months s.pattern.months ∧
      Pattern.IsWrittenAs r.pattern.daysOfMonth s.pattern.daysOfMonth ∧
      Pattern.IsWrittenAs r.pattern.daysOfWeek s.pattern.daysOfWeek := by
  obtain ⟨hdescription, hperiods, hyears, hmonths, hdays, hweekdays⟩ := text_eq_text_iff.1 h
  refine ⟨⟨hdescription, hperiods⟩, fun d => ?_, fun d => ?_, hyears, hmonths, hdays, hweekdays⟩
  · exact Pattern.selects_iff_of_isWrittenAs hyears hmonths hdays hweekdays
  · rw [Day.ofRule, Day.ofRule, descriptionText, descriptionText, hdescription, hperiods]

/-- A rule of every so many years before the year 0 cannot be read back, the period being too large
besides. Its form is that of the rule with the selector of all months, and they select the same
dates. -/
theorem text_tells_days_unreadable :
    ∃ years, YearSelector.ofStride (-5) none 4000000000 = .ok years ∧
      ∃ r s, ofParts ⟨[years], [], [], []⟩ (some "a]]b") [Period.allDay] = .ok r ∧
        ofParts ⟨[years], [.all .months], [], []⟩ (some "a]]b") [Period.allDay] = .ok s ∧
        r.text = "-5/4000000000 * * * [[a]]b]] 00:00-24:00" ∧ parse? Rule r.text = none ∧
        r.text = s.text ∧ r ≠ s ∧ ∀ d, r.Selects d ↔ s.Selects d := by
  let stride : Stride .years :=
    { first := -5
      last := none
      period := 4000000000
      period_ne_zero := by decide
      first_mem := ⟨nofun, nofun⟩
      last_mem := nofun
      ordered := nofun }
  let description : Description := ⟨"a]]b", by decide, by decide, by decide⟩
  let r : Rule := ⟨⟨[.stride stride], [], [], []⟩, some description, [Period.allDay]⟩
  let s : Rule := ⟨⟨[.stride stride], [.all .months], [], []⟩, some description, [Period.allDay]⟩
  have hstride : Stride.ofBounds .years (-5) none 4000000000 = .ok stride :=
    Stride.ofBounds_eq_ok_iff.2 ⟨rfl, rfl, rfl⟩
  have htext : r.text = s.text := by decide +kernel
  refine ⟨.stride stride, map_eq_ok_iff.2 ⟨stride, hstride, rfl⟩, r, s, by decide +kernel,
    by decide +kernel, by decide +kernel, ?_, htext, by decide, (text_tells_days htext).2.1⟩
  refine Option.eq_none_iff_forall_ne_some.2 fun t ht => ?_
  exact absurd (parse?_text_eq_some_iff.1 ht).1 (by decide)

end Rule

end Workdays
